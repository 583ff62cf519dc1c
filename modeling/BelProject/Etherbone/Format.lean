import BelProject.Etherbone.Operations
import BelProject.Etherbone.Wire

/-! The formatting loop of `eb_device_flush`. A checked cycle is cut into batches,
each of which becomes one record: a chain of writes to one FIFO or to consecutive
words, then a run of reads with the same byte lanes, or in their place a read of the
remote error status once the status register could be full or the cycle is over. -/

namespace BelProject.Etherbone.Format
open Width Operations Wire

/-- A bus operation shifts one bit into the remote status register, a config one none. -/
def bump (cfg : Bool) (ops : Nat) : Nat := if cfg then ops else ops + 1

/-- Operations a scan put into the record, the status count behind them, and `scanp`. -/
structure Chain where
  taken : List Operation
  ops : Nat
  rest : List Operation

namespace Chain

def push (op : Operation) (tail : Chain) : Chain := { tail with taken := op :: tail.taken }

end Chain

/-- The chaining loop over writes behind the second one; `advance` is the identity for a
FIFO and adds the stride for sequential addresses. -/
def chainWrites (maxops : Nat) (advance : Nat → Nat) (wcfg : Bool) (format : UInt8) :
    Nat → Nat → Nat → List Operation → Chain
  | _, _, ops, [] => ⟨[], ops, []⟩
  | bwa, wcount, ops, scan :: next =>
    if scan.address ≠ advance bwa ∨ scan.isWrite = false ∨ scan.cfgSpace ≠ wcfg ∨
        scan.format ≠ format ∨ wcount ≥ 255 ∨ ops ≥ maxops then
      ⟨[], ops, scan :: next⟩
    else
      (chainWrites maxops advance wcfg format (advance bwa) (wcount + 1) (bump wcfg ops) next).push scan

def chainReads (p : Port) (maxops : Nat) (rcfg : Bool) (format : UInt8) (lowAddr : Nat) :
    Nat → Nat → List Operation → Chain
  | _, ops, [] => ⟨[], ops, []⟩
  | rcount, ops, scan :: next =>
    if scan.isWrite = true ∨ scan.cfgSpace ≠ rcfg ∨ scan.format ≠ format ∨
        scan.address &&& (p.data - 1) ≠ lowAddr ∨ rcount ≥ 255 ∨ ops ≥ maxops then
      ⟨[], ops, scan :: next⟩
    else
      (chainReads p maxops rcfg format lowAddr (rcount + 1) (bump rcfg ops) next).push scan

/-- The write part of a record; `format` is `EB_DATAX` as long as nothing fixed it. -/
structure WritePart where
  writes : List Operation
  fifo : Bool
  wcfg : Bool
  format : UInt8
  lowAddr : Nat
  ops : Nat
  rest : List Operation

def sequential (p : Port) (bwa : Nat) : Nat := (bwa + p.stride) % p.wordMod

/-- First pack writes into a record, if any. -/
def planWrites (p : Port) (maxops ops : Nat) : List Operation → WritePart
  | [] => ⟨[], false, false, ebDataX, 0, ops, []⟩
  | scan :: next =>
    if ops ≥ maxops ∨ scan.isWrite = false then ⟨[], false, false, ebDataX, 0, ops, scan :: next⟩
    else
      let wcfg := scan.cfgSpace
      let lowAddr := scan.address &&& (p.data - 1)
      let ops := bump wcfg ops
      let part (fifo : Bool) (chain : Chain) : WritePart :=
        ⟨scan :: chain.taken, fifo, wcfg, scan.format, lowAddr, chain.ops, chain.rest⟩
      match next with
      | [] => part false ⟨[], ops, []⟩
      | second :: after =>
        if ops ≥ maxops ∨ second.isWrite = false ∨ second.cfgSpace ≠ wcfg ∨ second.format ≠ scan.format then
          part false ⟨[], ops, second :: after⟩
        else if second.address = scan.address then
          part true ((chainWrites maxops id wcfg scan.format scan.address 2 (bump wcfg ops) after).push second)
        else if second.address = sequential p scan.address then
          part false ((chainWrites maxops (sequential p) wcfg scan.format (sequential p scan.address) 2
            (bump wcfg ops) after).push second)
        else part false ⟨[], ops, second :: after⟩

/-- The plan of one record. `start` is `operationp` before and `rest` after it, `ops` the
number of bus operations whose status has not been asked for when it is complete. -/
structure Batch where
  start : List Operation
  writes : List Operation
  fifo : Bool
  wcfg : Bool
  reads : List Operation
  rcfg : Bool
  inserted : Bool
  format : UInt8
  lowAddr : Nat
  ops : Nat
  rest : List Operation
  cycleEnd : Bool

structure ReadPart where
  reads : List Operation
  rcfg : Bool
  format : UInt8
  lowAddr : Nat
  ops : Nat
  rest : List Operation

def planReads (p : Port) (maxops : Nat) (part : WritePart) : ReadPart :=
  match part.rest with
  | [] => ⟨[], false, part.format, part.lowAddr, part.ops, []⟩
  | scan :: next =>
    if part.ops ≥ maxops ∨ scan.isWrite = true ∨ (part.format ≠ ebDataX ∧
        (scan.format ≠ part.format ∨ scan.address &&& (p.data - 1) ≠ part.lowAddr)) then
      ⟨[], false, part.format, part.lowAddr, part.ops, scan :: next⟩
    else
      let lowAddr := scan.address &&& (p.data - 1)
      let chain := (chainReads p maxops scan.cfgSpace scan.format lowAddr 1
        (bump scan.cfgSpace part.ops) next).push scan
      ⟨chain.taken, scan.cfgSpace, scan.format, lowAddr, chain.ops, chain.rest⟩

/-- One pass of the `while (!cycle_end)` loop up to the buffer check. -/
def planRecord (p : Port) (needsCheck : Bool) (maxops ops : Nat) (operations : List Operation) : Batch :=
  let part := planWrites p maxops ops operations
  let tail := planReads p maxops part
  let inserted := decide (tail.reads = [] ∧ (tail.format = ebDataX ∨ tail.format = UInt8.ofNat p.data) ∧
    (tail.ops ≥ maxops ∨ (tail.rest = [] ∧ needsCheck = true ∧ tail.ops > 0)))
  { start := operations
    writes := part.writes
    fifo := part.fifo
    wcfg := part.wcfg
    reads := tail.reads
    rcfg := tail.rcfg || inserted
    inserted := inserted
    format := if inserted then UInt8.ofNat p.data else tail.format
    lowAddr := tail.lowAddr
    ops := tail.ops
    rest := tail.rest
    cycleEnd := decide (tail.rest = [] ∧ (needsCheck = false ∨ tail.ops = 0 ∨ inserted = true)) }

/-- The low address bits determine how far to shift values. -/
def opShift (p : Port) (format : UInt8) (lowAddr : Nat) : Nat :=
  if format &&& ebEndianMask = ebBigEndian then p.data - (lowAddr + (format &&& ebDataX).toNat)
  else lowAddr

def byteEnable (p : Port) (format : UInt8) (lowAddr : Nat) : UInt8 :=
  UInt8.ofNat ((0xff >>> (8 - (format &&& ebDataX).toNat)) <<< opShift p format lowAddr)

/-- The second phase of `eb_device_flush`: format a batch with replies going to `rba`. -/
def Batch.toRecord (p : Port) (rba : Nat) (batch : Batch) : Record :=
  let shift := opShift p batch.format batch.lowAddr
  { flags := recordBca ||| recordRff ||| (if batch.rcfg then recordRca else 0) |||
      (if batch.wcfg then recordWca else 0) ||| (if batch.fifo then recordWff else 0) |||
      (if batch.cycleEnd then recordCyc else 0)
    select := byteEnable p batch.format batch.lowAddr
    bwa := (batch.writes.head?.map Operation.address).getD 0
    writes := batch.writes.map fun op => (op.unValue <<< (shift <<< 3)) % p.wordMod
    bra := if batch.inserted then rba ||| 1 else rba
    reads := if batch.inserted then [8 - p.stride] else batch.reads.map Operation.address }

/-- The formatting loop. `ops` starts again from zero behind a status read. -/
def formatLoop (p : Port) (needsCheck : Bool) (maxops : Nat) : Nat → Nat → List Operation → List Batch
  | 0, _, _ => []
  | fuel + 1, ops, operations =>
    let batch := planRecord p needsCheck maxops ops operations
    if batch.cycleEnd then [batch]
    else batch :: formatLoop p needsCheck maxops fuel (if batch.inserted then 0 else batch.ops) batch.rest

def needsCheck (operations : List Operation) : Bool := (operations.head?.map Operation.checked).getD false

/-- `maxops`: the width of one status word, or `(unsigned)-1` for an unchecked cycle. -/
def maxOps (p : Port) (check : Bool) : Nat := if check then p.stride * 8 else 2 ^ 32 - 1

def formatCycle (p : Port) (operations : List Operation) : List Batch :=
  let check := needsCheck operations
  formatLoop p check (maxOps p check) (2 * operations.length + 2) 0 operations

/-! ### What a batch takes from the list -/

def busCount (ops : List Operation) : Nat := ops.countP fun op => !op.cfgSpace

@[simp] theorem busCount_nil : busCount [] = 0 := rfl

theorem busCount_cons (op : Operation) (ops : List Operation) (base : Nat) :
    base + busCount (op :: ops) = bump op.cfgSpace base + busCount ops := by
  cases space : op.cfgSpace <;> simp [busCount, bump, space]
  omega

@[simp] theorem busCount_append (first second : List Operation) :
    busCount (first ++ second) = busCount first + busCount second := List.countP_append

/-- Consecutive operations at the addresses a FIFO or sequential record walks through. -/
def Chained (advance : Nat → Nat) : Nat → List Operation → Prop
  | _, [] => True
  | address, op :: ops => op.address = address ∧ Chained advance (advance address) ops

structure Chain.Scans (maxops ops : Nat) (operations : List Operation) (chain : Chain) : Prop where
  split : operations = chain.taken ++ chain.rest
  ops_eq : chain.ops = ops + busCount chain.taken
  ops_le : ops ≤ maxops → chain.ops ≤ maxops

theorem Chain.Scans.stop (maxops ops : Nat) (operations : List Operation) :
    Chain.Scans maxops ops operations ⟨[], ops, operations⟩ :=
  ⟨rfl, rfl, id⟩

variable {operations : List Operation}

theorem Chain.Scans.push {maxops ops : Nat} {chain : Chain}
    {op : Operation} (below : ops < maxops) (tail : chain.Scans maxops (bump op.cfgSpace ops) operations) :
    (chain.push op).Scans maxops ops (op :: operations) := by
  refine ⟨?_, ?_, fun _ => ?_⟩
  · simp only [Chain.push, List.cons_append, ← tail.split]
  · simp only [Chain.push, tail.ops_eq, busCount_cons]
  · apply tail.ops_le
    unfold bump
    split <;> omega

theorem chainWrites_scans (maxops : Nat) (advance : Nat → Nat) (wcfg : Bool) (format : UInt8)
    (bwa wcount ops : Nat) (operations : List Operation) :
    (chainWrites maxops advance wcfg format bwa wcount ops operations).Scans maxops ops operations := by
  induction operations generalizing bwa wcount ops with
  | nil => exact Chain.Scans.stop maxops ops []
  | cons scan next ih =>
    unfold chainWrites
    split
    · exact Chain.Scans.stop maxops ops (scan :: next)
    · rename_i chained
      push Not at chained
      obtain ⟨_, _, space, _, _, below⟩ := chained
      apply Chain.Scans.push below
      rw [space]
      exact ih _ _ _

variable (p : Port)

theorem chainReads_scans (maxops : Nat) (rcfg : Bool) (format : UInt8)
    (lowAddr rcount ops : Nat) (operations : List Operation) :
    (chainReads p maxops rcfg format lowAddr rcount ops operations).Scans maxops ops operations := by
  induction operations generalizing rcount ops with
  | nil => exact Chain.Scans.stop maxops ops []
  | cons scan next ih =>
    unfold chainReads
    split
    · exact Chain.Scans.stop maxops ops (scan :: next)
    · rename_i chained
      push Not at chained
      obtain ⟨_, space, _, _, _, below⟩ := chained
      apply Chain.Scans.push below
      rw [space]
      exact ih _ _

structure Writes (advance : Nat → Nat) (wcfg : Bool) (format : UInt8) (address : Nat)
    (ops : List Operation) : Prop where
  isWrite : ∀ op ∈ ops, op.isWrite = true
  space : ∀ op ∈ ops, op.cfgSpace = wcfg
  format_eq : ∀ op ∈ ops, op.format = format
  chained : Chained advance address ops

theorem Writes.nil (advance : Nat → Nat) (wcfg : Bool) (format : UInt8) (address : Nat) :
    Writes advance wcfg format address [] :=
  ⟨by simp, by simp, by simp, trivial⟩

theorem Writes.cons {advance : Nat → Nat} {wcfg : Bool} {format : UInt8} {address : Nat}
    {op : Operation} {ops : List Operation} (isWrite : op.isWrite = true) (space : op.cfgSpace = wcfg)
    (same : op.format = format) (here : op.address = address)
    (tail : Writes advance wcfg format (advance address) ops) :
    Writes advance wcfg format address (op :: ops) :=
  ⟨List.forall_mem_cons.mpr ⟨isWrite, tail.isWrite⟩, List.forall_mem_cons.mpr ⟨space, tail.space⟩,
    List.forall_mem_cons.mpr ⟨same, tail.format_eq⟩, here, tail.chained⟩

theorem chainWrites_taken (maxops : Nat) (advance : Nat → Nat) (wcfg : Bool) (format : UInt8)
    (bwa wcount ops : Nat) (operations : List Operation) :
    Writes advance wcfg format (advance bwa)
      (chainWrites maxops advance wcfg format bwa wcount ops operations).taken := by
  induction operations generalizing bwa wcount ops with
  | nil => exact Writes.nil _ _ _ _
  | cons scan next ih =>
    unfold chainWrites
    split
    · exact Writes.nil _ _ _ _
    · rename_i chained
      push Not at chained
      obtain ⟨here, isWrite, space, same, _, _⟩ := chained
      exact Writes.cons (Bool.eq_true_of_not_eq_false isWrite) space same here (ih _ _ _)

theorem chainWrites_length (maxops : Nat) (advance : Nat → Nat) (wcfg : Bool) (format : UInt8)
    (bwa wcount ops : Nat) (operations : List Operation) (bounded : wcount ≤ 255) :
    wcount + (chainWrites maxops advance wcfg format bwa wcount ops operations).taken.length ≤ 255 := by
  induction operations generalizing bwa wcount ops with
  | nil => exact bounded
  | cons scan next ih =>
    unfold chainWrites
    split
    · exact bounded
    · rename_i chained
      push Not at chained
      have tail := ih (advance bwa) (wcount + 1) (bump wcfg ops) (by omega)
      simp only [Chain.push, List.length_cons]
      omega

structure Reads (p : Port) (rcfg : Bool) (format : UInt8) (lowAddr : Nat) (ops : List Operation) : Prop where
  isRead : ∀ op ∈ ops, op.isWrite = false
  space : ∀ op ∈ ops, op.cfgSpace = rcfg
  format_eq : ∀ op ∈ ops, op.format = format
  lane : ∀ op ∈ ops, op.address &&& (p.data - 1) = lowAddr

theorem Reads.nil (rcfg : Bool) (format : UInt8) (lowAddr : Nat) : Reads p rcfg format lowAddr [] :=
  ⟨by simp, by simp, by simp, by simp⟩

theorem Reads.cons {p : Port} {rcfg : Bool} {format : UInt8} {lowAddr : Nat} {op : Operation}
    {ops : List Operation} (isRead : op.isWrite = false) (space : op.cfgSpace = rcfg)
    (same : op.format = format) (lane : op.address &&& (p.data - 1) = lowAddr)
    (tail : Reads p rcfg format lowAddr ops) : Reads p rcfg format lowAddr (op :: ops) :=
  ⟨List.forall_mem_cons.mpr ⟨isRead, tail.isRead⟩, List.forall_mem_cons.mpr ⟨space, tail.space⟩,
    List.forall_mem_cons.mpr ⟨same, tail.format_eq⟩, List.forall_mem_cons.mpr ⟨lane, tail.lane⟩⟩

theorem chainReads_taken (maxops : Nat) (rcfg : Bool) (format : UInt8)
    (lowAddr rcount ops : Nat) (operations : List Operation) (bounded : rcount ≤ 255) :
    Reads p rcfg format lowAddr (chainReads p maxops rcfg format lowAddr rcount ops operations).taken ∧
      rcount + (chainReads p maxops rcfg format lowAddr rcount ops operations).taken.length ≤ 255 := by
  induction operations generalizing rcount ops with
  | nil => exact ⟨Reads.nil _ _ _ _, bounded⟩
  | cons scan next ih =>
    unfold chainReads
    split
    · exact ⟨Reads.nil _ _ _ _, bounded⟩
    · rename_i chained
      push Not at chained
      obtain ⟨isRead, space, same, lane, _, _⟩ := chained
      obtain ⟨reads, length⟩ := ih (rcount + 1) (bump rcfg ops) (by omega)
      refine ⟨Reads.cons (Bool.eq_false_of_not_eq_true isRead) space same lane reads, ?_⟩
      simp only [Chain.push, List.length_cons]
      omega

/-- How a slave moves from one write of the record to the next. -/
def advance (p : Port) (fifo : Bool) : Nat → Nat := if fifo then id else sequential p

structure WritePart.Spec (p : Port) (maxops ops : Nat) (operations : List Operation)
    (part : WritePart) : Prop where
  scans : Chain.Scans maxops ops operations ⟨part.writes, part.ops, part.rest⟩
  writes : Writes (advance p part.fifo) part.wcfg part.format
    ((part.writes.head?.map Operation.address).getD 0) part.writes
  length : part.writes.length ≤ 255
  empty : part.writes = [] → part.format = ebDataX ∧ part.lowAddr = 0 ∧
    (ops ≥ maxops ∨ operations = [] ∨ ∃ scan next, operations = scan :: next ∧ scan.isWrite = false)
  lane : ∀ op ops, part.writes = op :: ops → op.address &&& (p.data - 1) = part.lowAddr

private theorem spec_of_chain {p : Port} {maxops ops : Nat} {scan : Operation} {next : List Operation}
    {fifo : Bool} {chain : Chain} (below : ops < maxops) (isWrite : scan.isWrite = true)
    (scans : chain.Scans maxops (bump scan.cfgSpace ops) next)
    (writes : Writes (advance p fifo) scan.cfgSpace scan.format (advance p fifo scan.address) chain.taken)
    (length : chain.taken.length ≤ 254) :
    WritePart.Spec p maxops ops (scan :: next) ⟨scan :: chain.taken, fifo, scan.cfgSpace, scan.format,
      scan.address &&& (p.data - 1), chain.ops, chain.rest⟩ := by
  refine ⟨Chain.Scans.push below scans, Writes.cons isWrite rfl rfl rfl writes, ?_, ?_, ?_⟩
  · simp only [List.length_cons]
    omega
  · intro empty
    cases empty
  · intro op ops same
    cases same
    rfl

theorem planWrites_spec (maxops ops : Nat) (operations : List Operation) :
    (planWrites p maxops ops operations).Spec p maxops ops operations := by
  cases operations with
  | nil =>
    exact ⟨Chain.Scans.stop maxops ops [], Writes.nil _ _ _ _, by simp [planWrites],
      fun _ => ⟨rfl, rfl, Or.inr (Or.inl rfl)⟩, by simp [planWrites]⟩
  | cons scan next =>
    by_cases skip : ops ≥ maxops ∨ scan.isWrite = false
    · simp only [planWrites, if_pos skip]
      refine ⟨Chain.Scans.stop maxops ops (scan :: next), Writes.nil _ _ _ _, by simp, fun _ => ?_, by simp⟩
      exact ⟨rfl, rfl, skip.imp id fun isRead => Or.inr ⟨scan, next, rfl, isRead⟩⟩
    · simp only [planWrites, if_neg skip]
      push Not at skip
      have isWrite : scan.isWrite = true := Bool.eq_true_of_not_eq_false skip.2
      have single (operations : List Operation) : WritePart.Spec p maxops ops (scan :: operations)
          ⟨[scan], false, scan.cfgSpace, scan.format, scan.address &&& (p.data - 1),
            bump scan.cfgSpace ops, operations⟩ :=
        spec_of_chain skip.1 isWrite (Chain.Scans.stop maxops _ operations) (Writes.nil _ _ _ _) (by simp)
      cases next with
      | nil => exact single []
      | cons second after =>
        by_cases alone : bump scan.cfgSpace ops ≥ maxops ∨ second.isWrite = false ∨
            second.cfgSpace ≠ scan.cfgSpace ∨ second.format ≠ scan.format
        · simp only [if_pos alone]
          exact single (second :: after)
        · simp only [if_neg alone]
          push Not at alone
          obtain ⟨below, isWrite', space, same⟩ := alone
          have chained (step : Nat → Nat) (bwa : Nat) (here : second.address = bwa) :
              let chain := (chainWrites maxops step scan.cfgSpace scan.format bwa 2
                (bump scan.cfgSpace (bump scan.cfgSpace ops)) after).push second
              chain.Scans maxops (bump scan.cfgSpace ops) (second :: after) ∧
                Writes step scan.cfgSpace scan.format bwa chain.taken ∧ chain.taken.length ≤ 254 := by
            refine ⟨Chain.Scans.push below (space ▸ chainWrites_scans _ _ _ _ _ _ _ _),
              Writes.cons (Bool.eq_true_of_not_eq_false isWrite') space same here
                (chainWrites_taken _ _ _ _ _ _ _ _), ?_⟩
            have bound := chainWrites_length maxops step scan.cfgSpace scan.format bwa 2
              (bump scan.cfgSpace (bump scan.cfgSpace ops)) after (by decide)
            simp only [Chain.push, List.length_cons]
            omega
          by_cases fifo : second.address = scan.address
          · simp only [if_pos fifo]
            obtain ⟨scans, writes, length⟩ := chained id scan.address fifo
            exact spec_of_chain skip.1 isWrite scans writes length
          · simp only [if_neg fifo]
            by_cases seq : second.address = sequential p scan.address
            · simp only [if_pos seq]
              obtain ⟨scans, writes, length⟩ := chained (sequential p) (sequential p scan.address) seq
              exact spec_of_chain skip.1 isWrite scans writes length
            · simp only [if_neg seq]
              exact single (second :: after)

structure ReadPart.Spec (p : Port) (maxops : Nat) (part : WritePart) (tail : ReadPart) : Prop where
  scans : Chain.Scans maxops part.ops part.rest ⟨tail.reads, tail.ops, tail.rest⟩
  reads : Reads p tail.rcfg tail.format tail.lowAddr tail.reads
  length : tail.reads.length ≤ 255
  kept : tail.reads = [] ∨ part.format ≠ ebDataX → tail.format = part.format ∧ tail.lowAddr = part.lowAddr
  progress : part.ops < maxops → part.format = ebDataX → ∀ scan next, part.rest = scan :: next →
    scan.isWrite = false → tail.reads ≠ []

theorem planReads_spec (maxops : Nat) (part : WritePart) : (planReads p maxops part).Spec p maxops part := by
  unfold planReads
  split
  next none =>
    exact ⟨none ▸ Chain.Scans.stop maxops part.ops [], Reads.nil _ _ _ _, by simp,
      fun _ => ⟨rfl, rfl⟩, fun _ _ _ _ same => by simp [none] at same⟩
  next scan next rest =>
    by_cases skip : part.ops ≥ maxops ∨ scan.isWrite = true ∨ (part.format ≠ ebDataX ∧
        (scan.format ≠ part.format ∨ scan.address &&& (p.data - 1) ≠ part.lowAddr))
    · simp only [if_pos skip]
      refine ⟨rest ▸ Chain.Scans.stop maxops part.ops (scan :: next), Reads.nil _ _ _ _, by simp,
        fun _ => ⟨rfl, rfl⟩, ?_⟩
      intro below free scan' next' same isRead
      rw [rest] at same
      cases same
      rcases skip with full | isWrite | ⟨fixed, _⟩
      · omega
      · rw [isRead] at isWrite
        cases isWrite
      · exact absurd free fixed
    · simp only [if_neg skip]
      push Not at skip
      obtain ⟨below, isRead, fixed⟩ := skip
      have isRead' : scan.isWrite = false := Bool.eq_false_of_not_eq_true isRead
      obtain ⟨reads, length⟩ := chainReads_taken p maxops scan.cfgSpace scan.format
        (scan.address &&& (p.data - 1)) 1 (bump scan.cfgSpace part.ops) next (by decide)
      refine ⟨?_, Reads.cons isRead' rfl rfl rfl reads, ?_, ?_, ?_⟩
      · rw [rest]
        exact Chain.Scans.push below (chainReads_scans _ _ _ _ _ _ _ _)
      · simp only [Chain.push, List.length_cons]
        omega
      · intro free
        rcases free with none | format
        · cases none
        · exact fixed format
      · intro _ _ _ _ _ _ none
        cases none

theorem sequential_mod_data (bwa : Nat) : sequential p bwa % p.data = bwa % p.data := by
  unfold sequential Port.stride
  rw [Nat.mod_mod_of_dvd _ p.data_dvd_wordMod, Nat.add_mod_right]

theorem advance_mod_data (fifo : Bool) (bwa : Nat) : advance p fifo bwa % p.data = bwa % p.data := by
  cases fifo with
  | true => rfl
  | false => exact sequential_mod_data p bwa

theorem Chained.lane {p : Port} {fifo : Bool} {address : Nat} {ops : List Operation}
    (chained : Chained (advance p fifo) address ops) :
    ∀ op ∈ ops, op.address % p.data = address % p.data := by
  induction ops generalizing address with
  | nil => simp
  | cons op ops ih =>
    obtain ⟨here, tail⟩ := chained
    intro other member
    rcases List.mem_cons.mp member with rfl | later
    · rw [here]
    · rw [ih tail other later, advance_mod_data]

/-- Everything the second phase and the loop need to know about a planned record. -/
structure Batch.Spec (p : Port) (check : Bool) (maxops ops : Nat) (operations : List Operation)
    (batch : Batch) : Prop where
  start_eq : batch.start = operations
  split : operations = batch.writes ++ (batch.reads ++ batch.rest)
  ops_eq : batch.ops = ops + busCount (batch.writes ++ batch.reads)
  ops_le : ops ≤ maxops → batch.ops ≤ maxops
  writes : Writes (advance p batch.fifo) batch.wcfg batch.format
    ((batch.writes.head?.map Operation.address).getD 0) batch.writes
  writes_length : batch.writes.length ≤ 255
  writes_lane : ∀ op ∈ batch.writes, op.address % p.data = batch.lowAddr
  reads : Reads p batch.rcfg batch.format batch.lowAddr batch.reads
  reads_length : batch.reads.length ≤ 255
  inserted : batch.inserted = true → batch.reads = [] ∧ batch.format = UInt8.ofNat p.data ∧
    batch.lowAddr = 0 ∧ batch.rcfg = true ∧ (batch.ops ≥ maxops ∨ (batch.rest = [] ∧ check = true ∧ 0 < batch.ops))
  cycleEnd_iff : batch.cycleEnd = true ↔
    batch.rest = [] ∧ (check = false ∨ batch.ops = 0 ∨ batch.inserted = true)
  progress : 0 < maxops → batch.cycleEnd = true ∨ batch.writes ++ batch.reads ≠ [] ∨
    (batch.inserted = true ∧ ops ≠ 0)

variable {part : WritePart}

variable {tail : ReadPart}

theorem planned_writes {p : Port} {maxops ops : Nat}
    (accepted : ∀ op ∈ operations, Accepted p op)
    (head : part.Spec p maxops ops operations) (reads : tail.Spec p maxops part) :
    ∀ op ∈ part.writes, Accepted p op ∧ op.format = tail.format ∧ op.address % p.data = tail.lowAddr := by
  intro op member
  have ofMem : ∀ op ∈ part.writes, Accepted p op := by
    intro op member
    apply accepted
    rw [head.scans.split]
    exact List.mem_append_left _ member
  have fixed : part.format ≠ ebDataX := by
    rw [← head.writes.format_eq op member]
    exact (ofMem op member).format_ne_dataX
  obtain ⟨sameFormat, sameLane⟩ := reads.kept (Or.inr fixed)
  obtain ⟨first, writes, same⟩ := List.exists_cons_of_ne_nil (List.ne_nil_of_mem member)
  refine ⟨ofMem op member, ?_, ?_⟩
  · rw [sameFormat]
    exact head.writes.format_eq op member
  · rw [sameLane, ← head.lane first writes same, head.writes.chained.lane op member, same,
      p.and_data_sub_one]
    rfl

theorem planned_status {p : Port} {maxops ops : Nat}
    (accepted : ∀ op ∈ operations, Accepted p op)
    (head : part.Spec p maxops ops operations) (reads : tail.Spec p maxops part)
    (none : tail.reads = []) (format : tail.format = ebDataX ∨ tail.format = UInt8.ofNat p.data) :
    tail.lowAddr = 0 ∧ ∀ op ∈ part.writes, op.format = UInt8.ofNat p.data := by
  have writes := planned_writes accepted head reads
  have full : ∀ op ∈ part.writes, op.format = UInt8.ofNat p.data := by
    intro op member
    obtain ⟨ok, same, _⟩ := writes op member
    rcases format with free | full
    · exact absurd (same.trans free) ok.format_ne_dataX
    · exact same.trans full
  refine ⟨?_, full⟩
  cases empty : part.writes with
  | nil =>
    rw [(reads.kept (Or.inl none)).2]
    exact (head.empty empty).2.1
  | cons op rest =>
    have member : op ∈ part.writes := empty ▸ List.mem_cons_self
    obtain ⟨ok, _, lane⟩ := writes op member
    rw [← lane]
    exact ok.lane_full (full op member)

theorem planned_progress {p : Port} {maxops ops : Nat}
    (head : part.Spec p maxops ops operations)
    (reads : tail.Spec p maxops part) (noWrite : part.writes = []) (noRead : tail.reads = []) :
    tail.format = ebDataX ∧ tail.ops = ops ∧ (maxops ≤ ops ∨ tail.rest = []) := by
  obtain ⟨free, _, stopped⟩ := head.empty noWrite
  obtain ⟨format, _⟩ := reads.kept (Or.inl noRead)
  have opsPart : part.ops = ops := by simpa [noWrite] using head.scans.ops_eq
  have opsTail : tail.ops = part.ops := by simpa [noRead] using reads.scans.ops_eq
  have restPart : operations = part.rest := by simpa [noWrite] using head.scans.split
  have restTail : part.rest = tail.rest := by simpa [noRead] using reads.scans.split
  refine ⟨format.trans free, opsTail.trans opsPart, ?_⟩
  rcases stopped with full | empty | ⟨scan, next, same, isRead⟩
  · exact Or.inl full
  · exact Or.inr (by rw [← restTail, ← restPart, empty])
  · by_contra running
    push Not at running
    exact reads.progress (by omega) free scan next (restPart ▸ same) isRead noRead

theorem planRecord_spec (check : Bool) (maxops ops : Nat) (operations : List Operation)
    (accepted : ∀ op ∈ operations, Accepted p op) :
    (planRecord p check maxops ops operations).Spec p check maxops ops operations := by
  have head := planWrites_spec p maxops ops operations
  have tail := planReads_spec p maxops (planWrites p maxops ops operations)
  dsimp only [planRecord]
  generalize planWrites p maxops ops operations = part at head tail ⊢
  generalize planReads p maxops part = read at tail ⊢
  have writes := planned_writes accepted head tail
  generalize flag : decide (read.reads = [] ∧ (read.format = ebDataX ∨ read.format = UInt8.ofNat p.data) ∧
    (read.ops ≥ maxops ∨ (read.rest = [] ∧ check = true ∧ read.ops > 0))) = inserted
  have insertedIff : inserted = true ↔ read.reads = [] ∧
      (read.format = ebDataX ∨ read.format = UInt8.ofNat p.data) ∧
      (read.ops ≥ maxops ∨ (read.rest = [] ∧ check = true ∧ read.ops > 0)) := by
    rw [← flag, decide_eq_true_iff]
  have total : read.ops = ops + busCount (part.writes ++ read.reads) := by
    have first := head.scans.ops_eq
    have second := tail.scans.ops_eq
    dsimp only at first second
    rw [second, first, busCount_append, Nat.add_assoc]
  have writeFormat : ∀ op ∈ part.writes,
      op.format = if inserted = true then UInt8.ofNat p.data else read.format := by
    intro op member
    cases inserted with
    | false => exact (writes op member).2.1
    | true =>
      obtain ⟨none, format, _⟩ := insertedIff.mp rfl
      exact (planned_status accepted head tail none format).2 op member
  refine ⟨rfl, ?_, total, fun le => tail.scans.ops_le (head.scans.ops_le le),
    ⟨head.writes.isWrite, head.writes.space, writeFormat, head.writes.chained⟩, head.length,
    fun op member => (writes op member).2.2, ?_, tail.length, ?_, decide_eq_true_iff, ?_⟩
  · rw [head.scans.split]
    exact congrArg (part.writes ++ ·) tail.scans.split
  · cases inserted with
    | false => simpa using tail.reads
    | true =>
      rw [(insertedIff.mp rfl).1]
      exact Reads.nil _ _ _ _
  · intro set
    change inserted = true at set
    obtain ⟨none, format, due⟩ := insertedIff.mp set
    exact ⟨none, if_pos set, (planned_status accepted head tail none format).1, by simp [set], due⟩
  · intro positive
    by_cases noWrite : part.writes = []
    · by_cases noRead : read.reads = []
      · obtain ⟨free, same, due⟩ := planned_progress head tail noWrite noRead
        by_cases full : maxops ≤ ops
        · exact Or.inr (Or.inr ⟨insertedIff.mpr ⟨noRead, Or.inl free, Or.inl (by omega)⟩, by omega⟩)
        · have ended : read.rest = [] := due.resolve_left full
          left
          rw [decide_eq_true_iff]
          refine ⟨ended, ?_⟩
          by_cases unchecked : check = false
          · exact Or.inl unchecked
          · by_cases zero : read.ops = 0
            · exact Or.inr (Or.inl zero)
            · exact Or.inr (Or.inr (insertedIff.mpr ⟨noRead, Or.inl free,
                Or.inr ⟨ended, Bool.eq_true_of_not_eq_false unchecked, Nat.pos_of_ne_zero zero⟩⟩))
      · exact Or.inr (Or.inl (by simp [noRead]))
    · exact Or.inr (Or.inl (by simp [noWrite]))

/-! ### The loop -/

/-- The batches a run of the loop produces from `operationp` with `ops` unreported bus operations. -/
inductive Formats (p : Port) (check : Bool) (maxops : Nat) : Nat → List Operation → List Batch → Prop where
  | last {ops : Nat} {operations : List Operation}
      (ended : (planRecord p check maxops ops operations).cycleEnd = true) :
      Formats p check maxops ops operations [planRecord p check maxops ops operations]
  | more {ops : Nat} {operations : List Operation} {batches : List Batch}
      (running : (planRecord p check maxops ops operations).cycleEnd = false)
      (tail : Formats p check maxops
        (if (planRecord p check maxops ops operations).inserted then 0
          else (planRecord p check maxops ops operations).ops)
        (planRecord p check maxops ops operations).rest batches) :
      Formats p check maxops ops operations (planRecord p check maxops ops operations :: batches)

def loopMeasure (ops : Nat) (operations : List Operation) : Nat :=
  2 * operations.length + (if ops = 0 then 0 else 1)

theorem loopMeasure_lt (check : Bool) (maxops ops : Nat) (operations : List Operation)
    (positive : 0 < maxops) (accepted : ∀ op ∈ operations, Accepted p op)
    (running : (planRecord p check maxops ops operations).cycleEnd = false) :
    loopMeasure (if (planRecord p check maxops ops operations).inserted then 0
        else (planRecord p check maxops ops operations).ops)
      (planRecord p check maxops ops operations).rest < loopMeasure ops operations := by
  have spec := planRecord_spec p check maxops ops operations accepted
  generalize planRecord p check maxops ops operations = batch at spec running ⊢
  have lengths := congrArg List.length spec.split
  simp only [List.length_append] at lengths
  unfold loopMeasure
  rcases spec.progress positive with ended | some | ⟨inserted, due⟩
  · rw [running] at ended
    cases ended
  · have shorter : 0 < (batch.writes ++ batch.reads).length := List.length_pos_iff.mpr some
    rw [List.length_append] at shorter
    split <;> split <;> omega
  · simp only [inserted, if_true, if_neg due]
    omega

theorem formatLoop_formats (check : Bool) (maxops fuel ops : Nat) (operations : List Operation)
    (positive : 0 < maxops) (accepted : ∀ op ∈ operations, Accepted p op) (enough : loopMeasure ops operations < fuel) :
    Formats p check maxops ops operations (formatLoop p check maxops fuel ops operations) := by
  induction fuel generalizing ops operations with
  | zero => omega
  | succ fuel ih =>
    simp only [formatLoop]
    by_cases ended : (planRecord p check maxops ops operations).cycleEnd = true
    · rw [if_pos ended]
      exact Formats.last ended
    · rw [if_neg ended]
      have running := Bool.eq_false_of_not_eq_true ended
      apply Formats.more running
      have smaller := loopMeasure_lt p check maxops ops operations positive accepted running
      apply ih
      · intro op member
        apply accepted
        rw [(planRecord_spec p check maxops ops operations accepted).split]
        exact List.mem_append_right _ (List.mem_append_right _ member)
      · omega

theorem maxOps_pos (check : Bool) : 0 < maxOps p check := by
  have := p.data_pos
  unfold maxOps Port.stride
  split <;> omega

theorem formatCycle_formats (operations : List Operation) (accepted : ∀ op ∈ operations, Accepted p op) :
    Formats p (needsCheck operations) (maxOps p (needsCheck operations)) 0 operations (formatCycle p operations) := by
  apply formatLoop_formats
  · exact maxOps_pos p _
  · exact accepted
  · simp [loopMeasure]

end BelProject.Etherbone.Format
