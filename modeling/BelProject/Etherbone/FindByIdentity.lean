import BelProject.Etherbone.SdbTables
import BelProject.Library.Worklist

/-! The search for the devices of an identity. It starts at the root, and the callback of a
scan opens the scans of all bridges of its table, so many scans are outstanding at a time. A
counter of them tells when the search is over, whichever ends first. -/

namespace BelProject.Etherbone.FindByIdentity
open BelProject.Library Width Operations Sdb SdbScan SdbReplies SdbTables

/-! ### The tree of buses -/

def Reason : Type := { status : Status // status ≠ .ok }

/-- How the scan of a bus goes: it brings the table, it fails on its way, or it cannot even
be opened. -/
inductive Answer where
  | table
  | failed (reason : Reason)
  | refused (reason : Reason)

/-- A bus with the bytes of its table, a header at least, and the buses below its records.
Below what is not a bridge there is no bus, and nowhere is no table either. -/
inductive Bus where
  | nowhere (reason : Reason)
  | bus (answer : Answer) (bytes : { bytes : List UInt8 // 64 ≤ bytes.length }) (below : Nat → Bus)

namespace Bus

def answer : Bus → Answer
  | .nowhere reason => .failed reason
  | .bus answer _ _ => answer

def bytes : Bus → List UInt8
  | .nowhere _ => []
  | .bus _ bytes _ => bytes.val

def child : Bus → Nat → Bus
  | .nowhere reason => fun _ => .nowhere reason
  | .bus _ _ below => below

def devices (bus : Bus) : Nat := recordsOf bus.bytes - 1

def block (bus : Bus) (i : Nat) : List UInt8 := (bus.bytes.drop (64 * (i + 1))).take 64

end Bus

/-! ### The search -/

/-- `struct eb_find_by_identity`. -/
structure Search where
  vendorId : UInt64
  output : Nat → SdbDevice
  deviceId : UInt32
  size : Int
  fill : Nat
  pending : Int
  status : Status

/-- A scan that was opened and has not called back yet. -/
structure Scan where
  entry : Entry
  bus : Bus

variable (p : Port) (host : Host)

def Scan.result (scan : Scan) : Option SdbTable × Status :=
  match scan.bus.answer with
  | .table => (some (tableOf host (scan.entry.busBase p) (recordsOf scan.bus.bytes) scan.bus.bytes), .ok)
  | .failed reason => (none, reason.val)
  | .refused reason => (none, reason.val)

def Search.wanted (record : Search) (product : SdbProduct) : Bool :=
  product.vendorId == record.vendorId && product.deviceId == record.deviceId

/-- Copy a device out, if there is room, and count it. -/
def Search.add (record : Search) (device : SdbDevice) : Search :=
  { record with
    output := if (record.fill : Int) < record.size then Function.update record.output record.fill device
      else record.output
    fill := record.fill + 1 }

def visit (des : SdbRecord) (child : Bus) (record : Search) (opened : List Scan) : Search × List Scan :=
  match des with
  | .bridge bridge =>
    match ebSdbScanBus p bridge with
    | .error status => ({ record with status := status }, opened)
    | .ok _ =>
      match child.answer with
      | .refused reason => ({ record with status := reason.val }, opened)
      | _ => ({ record with pending := record.pending + 1 }, opened ++ [⟨.bus bridge, child⟩])
  | .device device =>
    if record.wanted device.sdbComponent.product then (record.add device, opened) else (record, opened)
  | _ => (record, opened)

/-- `eb_cb_find_by_identity`, and the scans it opens. -/
def ebCbFindByIdentity (below : Nat → Bus) (sdb : Option SdbTable) (status : Status) (record : Search) :
    Search × List Scan :=
  let record := { record with pending := record.pending - 1 }
  if status ≠ .ok then ({ record with status := status }, [])
  else
    match sdb with
    | none => (record, [])
    | some sdb =>
      (List.range (sdb.interconnect.sdbRecords.toNat - 1)).foldl (fun (record, opened) i =>
        match sdb.record[i]? with
        | none => (record, opened)
        | some des => visit p des (below i) record opened) (record, [])

structure State where
  record : Search
  scans : List Scan

/-- `eb_sdb_find_by_identity` up to its loop. -/
def ebSdbFindByIdentity (root : Bus) (vendorId : UInt64) (deviceId : UInt32) (output : Nat → SdbDevice)
    (size : Int) : State :=
  let record : Search := ⟨vendorId, output, deviceId, size, 0, 1, .ok⟩
  match root.answer with
  | .refused reason => ⟨{ record with status := reason.val }, []⟩
  | _ => ⟨record, [⟨.root, root⟩]⟩

/-- Any of the outstanding scans calls back. -/
inductive Step : State → State → Prop
  | callback (record : Search) (before after : List Scan) (scan : Scan) :
      Step ⟨record, before ++ scan :: after⟩
        ⟨(ebCbFindByIdentity p scan.bus.child (scan.result p host).1 (scan.result p host).2 record).1,
          before ++ after ++ (ebCbFindByIdentity p scan.bus.child (scan.result p host).1
            (scan.result p host).2 record).2⟩

inductive Steps (start : State) : Nat → State → Prop
  | start : Steps start 0 start
  | step {n : Nat} {s s' : State} (steps : Steps start n s) (step : Step p host s s') : Steps start (n + 1) s'

/-- The loop is over, or was never entered. -/
def State.Returned (root : Bus) (s : State) : Prop := (∃ reason, root.answer = .refused reason) ∨ s.record.pending ≤ 0

/-! ### Reports -/

/-- What a scan tells the search, apart from the scans it opens. -/
inductive Report where
  | device (device : SdbDevice)
  | error (reason : Reason)

def Report.device? : Report → Option SdbDevice
  | .device found => some found
  | .error _ => none

def Search.note (record : Search) : Report → Search
  | .device found => record.add found
  | .error reason => { record with status := reason.val }

section
variable (p : Port) (host : Host) (wanted : SdbProduct → Bool)

def reportOf (des : SdbRecord) (child : Bus) : List Report :=
  match des with
  | .bridge _ =>
    match child.answer with
    | .refused reason => [.error reason]
    | _ => []
  | .device device => if wanted device.sdbComponent.product then [.device device] else []
  | _ => []

def openedBy (des : SdbRecord) (child : Bus) : List Scan :=
  match des with
  | .bridge bridge =>
    match child.answer with
    | .refused _ => []
    | _ => [⟨.bus bridge, child⟩]
  | _ => []

namespace Scan

def record (scan : Scan) (i : Nat) : SdbRecord := decodeRecord host (scan.entry.busBase p) (scan.bus.block i)

def here (scan : Scan) : List Report :=
  match scan.bus.answer with
  | .table => (List.range scan.bus.devices).flatMap fun i => reportOf wanted (scan.record p host i) (scan.bus.child i)
  | .failed reason => [.error reason]
  | .refused reason => [.error reason]

def more (scan : Scan) : List Scan :=
  match scan.bus.answer with
  | .table => (List.range scan.bus.devices).flatMap fun i => openedBy (scan.record p host i) (scan.bus.child i)
  | .failed _ => []
  | .refused _ => []

end Scan

/-- Everything a bus and the buses below it have to report, from a base address on. -/
def Bus.reports : Bus → UInt64 → List Report
  | .nowhere reason, _ => [.error reason]
  | .bus .table bytes below, busBase =>
    (List.range (recordsOf bytes.val - 1)).flatMap fun i =>
      match decodeRecord host busBase ((bytes.val.drop (64 * (i + 1))).take 64) with
      | .bridge bridge => (below i).reports ((Entry.bus bridge).busBase p)
      | .device device => if wanted device.sdbComponent.product then [.device device] else []
      | _ => []
  | .bus (.failed reason) _ _, _ => [.error reason]
  | .bus (.refused reason) _ _, _ => [.error reason]

def isBridge (bytes : List UInt8) : Bool :=
  match decodeRecord host 0 bytes with
  | .bridge _ => true
  | _ => false

def Bus.buses : Bus → Nat
  | .nowhere _ => 1
  | .bus _ bytes below =>
    1 + ((List.range (recordsOf bytes.val - 1)).map fun i =>
      if isBridge host ((bytes.val.drop (64 * (i + 1))).take 64) then (below i).buses else 0).sum

/-! ### A record and its base -/

def moved (busBase : UInt64) (component : SdbComponent) : SdbComponent :=
  { component with addrFirst := component.addrFirst + busBase, addrLast := component.addrLast + busBase }

def movedRecord (busBase : UInt64) : SdbRecord → SdbRecord
  | .device device => .device { device with sdbComponent := moved busBase device.sdbComponent }
  | .bridge bridge => .bridge ⟨bridge.sdbChild + busBase, moved busBase bridge.sdbComponent⟩
  | .integration product => .integration product
  | .untouched bytes => .untouched bytes

variable {host}

theorem decodeRecord_moved (busBase : UInt64) (bytes : List UInt8) :
    decodeRecord host busBase bytes = movedRecord busBase (decodeRecord host 0 bytes) := by
  have component : ∀ bytes, decodeComponent host busBase bytes = moved busBase (decodeComponent host 0 bytes) := by
    intro bytes
    simp only [decodeComponent, moved, UInt64.add_zero]
  unfold decodeRecord
  by_cases device : bytes.getD 63 0 = sdbRecordDevice
  · simp only [if_pos device, movedRecord, decodeDevice, component]
  · by_cases bridge : bytes.getD 63 0 = sdbRecordBridge
    · simp only [if_neg device, if_pos bridge, movedRecord, component, UInt64.add_zero]
    · by_cases integration : bytes.getD 63 0 = sdbRecordIntegration
      · simp only [if_neg device, if_neg bridge, if_pos integration, movedRecord]
      · simp only [if_neg device, if_neg bridge, if_neg integration, movedRecord]

theorem decodeRecord_bridge {busBase : UInt64} {bytes : List UInt8} {bridge : SdbBridge}
    (decoded : decodeRecord host busBase bytes = .bridge bridge) : (Entry.bus bridge).IsBridge := by
  unfold decodeRecord at decoded
  simp only [] at decoded
  split_ifs at decoded with device kind
  cases decoded
  have whole : 63 < bytes.length := by
    by_contra short
    rw [List.getD_eq_default _ _ (Nat.le_of_not_lt short)] at kind
    exact absurd kind (by decide)
  have same : ((bytes.drop 8).drop 16).getD 39 0 = bytes.getD 63 0 := by
    rw [List.drop_drop, List.getD_eq_getElem _ _ (by rw [List.length_drop]; omega), List.getD_eq_getElem _ _ (by omega),
      List.getElem_drop]
  exact same.trans kind

end

/-! ### The callback -/

section
variable {p : Port} {host : Host} {wanted : SdbProduct → Bool}

/-- The parts of the search the reports do not change. -/
structure Search.Same (first second : Search) : Prop where
  vendorId : first.vendorId = second.vendorId
  deviceId : first.deviceId = second.deviceId
  size : first.size = second.size
  pending : first.pending = second.pending

variable (record : Search)

theorem note_same (report : Report) : (record.note report).Same record := by
  cases report with
  | device device => exact ⟨rfl, rfl, rfl, rfl⟩
  | error reason => exact ⟨rfl, rfl, rfl, rfl⟩

theorem notes_same (reports : List Report) : (reports.foldl Search.note record).Same record := by
  induction reports generalizing record with
  | nil => exact ⟨rfl, rfl, rfl, rfl⟩
  | cons report reports ih =>
    have first := note_same record report
    have later := ih (record.note report)
    exact ⟨later.vendorId.trans first.vendorId, later.deviceId.trans first.deviceId, later.size.trans first.size,
      later.pending.trans first.pending⟩

theorem notes_pending (reports : List Report) (pending : Int) :
    reports.foldl Search.note { record with pending := pending } =
      { reports.foldl Search.note record with pending := pending } := by
  induction reports generalizing record with
  | nil => rfl
  | cons report reports ih =>
    have one : ({ record with pending := pending } : Search).note report =
      { record.note report with pending := pending } := by
      cases report <;> rfl
    rw [List.foldl_cons, one, ih, List.foldl_cons]

/-- The search after some reports and with some scans opened. -/
def Search.after (record : Search) (reports : List Report) (opened : List Scan) : Search :=
  { reports.foldl Search.note record with pending := record.pending + opened.length }

theorem after_nil : record.after [] [] = record := by
  simp [Search.after]

theorem after_after (first second : List Report) (opened more : List Scan) :
    (record.after first opened).after second more = record.after (first ++ second) (opened ++ more) := by
  unfold Search.after
  rw [notes_pending, List.foldl_append, List.length_append]
  simp only [Nat.cast_add, Int.add_assoc]

theorem after_wanted (reports : List Report) (opened : List Scan) :
    (record.after reports opened).wanted = record.wanted := by
  have same := notes_same record reports
  funext product
  simp only [Search.wanted, Search.after, same.vendorId, same.deviceId]

theorem visit_eq {des : SdbRecord} (scannable : ∀ bridge, des = .bridge bridge →
    (Entry.bus bridge).IsBridge) (child : Bus)
    (record : Search) (opened : List Scan) :
    visit p des child record opened = (record.after (reportOf record.wanted des child) (openedBy des child),
      opened ++ openedBy des child) := by
  cases des with
  | bridge bridge =>
    have known : bridge.sdbComponent.product.recordType = sdbRecordBridge := scannable bridge rfl
    rw [visit, ebSdbScanBus, if_neg (not_not.mpr known)]
    cases answer : child.answer <;> simp [reportOf, openedBy, answer, Search.after, Search.note]
  | device device =>
    simp only [visit, reportOf, openedBy, List.append_nil]
    split
    · simp [Search.after, Search.note, Search.add]
    · simp [Search.after]
  | integration product => simp [visit, reportOf, openedBy, Search.after]
  | untouched bytes => simp [visit, reportOf, openedBy, Search.after]

theorem visits_eq (des : Nat → SdbRecord) (scannable : ∀ i bridge, des i = .bridge bridge → (Entry.bus bridge).IsBridge)
    (child : Nat → Bus) (indices : List Nat) (record : Search) (opened : List Scan) :
    indices.foldl (fun (acc : Search × List Scan) i => visit p (des i) (child i) acc.1 acc.2) (record, opened) =
      (record.after (indices.flatMap fun i => reportOf record.wanted (des i) (child i))
          (indices.flatMap fun i => openedBy (des i) (child i)),
        opened ++ indices.flatMap fun i => openedBy (des i) (child i)) := by
  induction indices generalizing record opened with
  | nil => simp [after_nil]
  | cons i indices ih =>
    rw [List.foldl_cons, visit_eq (scannable i), ih]
    simp only [after_wanted, after_after, List.flatMap_cons, List.append_assoc]

variable (host) in
theorem tableOf_devices (busBase : UInt64) {bytes : List UInt8} (long : 64 ≤ bytes.length) :
    (tableOf host busBase (recordsOf bytes) bytes).interconnect.sdbRecords.toNat = recordsOf bytes := by
  show (UInt16.ofNat (fieldAt host bytes 4 2)).toNat = _
  rw [fieldAt_records host (by omega), UInt16.toNat_ofNat', Nat.mod_eq_of_lt (recordsOf_lt bytes)]

theorem callback_eq (scan : Scan) (record : Search) (mine : record.wanted = wanted) :
    ebCbFindByIdentity p scan.bus.child (scan.result p host).1 (scan.result p host).2 record =
      ({ record with pending := record.pending - 1 }.after (scan.here p host wanted) (scan.more p host),
        scan.more p host) := by
  obtain ⟨entry, reason | ⟨answer, bytes, below⟩⟩ := scan
  · exact (if_pos reason.property).trans
      (by simp [Scan.here, Scan.more, Scan.result, Bus.answer, Search.after, Search.note])
  cases answer with
  | failed reason =>
    exact (if_pos reason.property).trans
      (by simp [Scan.here, Scan.more, Scan.result, Bus.answer, Search.after, Search.note])
  | refused reason =>
    exact (if_pos reason.property).trans
      (by simp [Scan.here, Scan.more, Scan.result, Bus.answer, Search.after, Search.note])
  | table =>
    have count := tableOf_devices host (entry.busBase p) bytes.property
    unfold ebCbFindByIdentity
    simp only [Scan.result, Bus.answer, Bus.bytes, Bus.child, ne_eq, not_true_eq_false, if_false, count]
    have found : ∀ i ∈ List.range (recordsOf bytes.val - 1),
        (tableOf host (entry.busBase p) (recordsOf bytes.val) bytes.val).record[i]? =
          some (decodeRecord host (entry.busBase p) ((bytes.val.drop (64 * (i + 1))).take 64)) := by
      intro i member
      have below := List.mem_range.mp member
      simp [tableOf, below]
    have visits := visits_eq (p := p) (fun i =>
      decodeRecord host (entry.busBase p) ((bytes.val.drop (64 * (i + 1))).take 64))
      (fun i bridge => decodeRecord_bridge) below (List.range (recordsOf bytes.val - 1))
      { record with pending := record.pending - 1 } []
    have mine' : ({ record with pending := record.pending - 1 } : Search).wanted = wanted := mine
    rw [mine', List.nil_append] at visits
    refine Eq.trans ?_ visits
    apply List.foldl_ext
    intro acc i member
    rw [found i member]

end

/-! ### The search is a list of work -/

section
variable (p : Port) (host : Host) (wanted : SdbProduct → Bool)

theorem isBridge_moved (busBase : UInt64) (bytes : List UInt8) :
    isBridge host bytes = match decodeRecord host busBase bytes with
      | .bridge _ => true
      | _ => false := by
  rw [isBridge, decodeRecord_moved busBase]
  cases decodeRecord host 0 bytes <;> rfl

theorem reports_visit (des : SdbRecord) (child : Bus) :
    (match des with
      | .bridge bridge => child.reports p host wanted ((Entry.bus bridge).busBase p)
      | .device device => if wanted device.sdbComponent.product then [.device device] else []
      | _ => []) =
      reportOf wanted des child ++ (openedBy des child).flatMap fun scan =>
        scan.bus.reports p host wanted (scan.entry.busBase p) := by
  cases des with
  | bridge bridge =>
    obtain reason | ⟨answer, bytes, below⟩ := child
    · simp [reportOf, openedBy, Bus.answer, Bus.reports]
    · cases answer <;> simp [reportOf, openedBy, Bus.answer, Bus.reports]
  | device device => simp [reportOf, openedBy]
  | integration product => rfl
  | untouched bytes => rfl

theorem openedBy_buses (busBase : UInt64) (bytes : List UInt8) (child : Bus) :
    ((openedBy (decodeRecord host busBase bytes) child).map fun scan => scan.bus.buses host).sum ≤
      if isBridge host bytes then child.buses host else 0 := by
  rw [isBridge_moved host busBase]
  cases decodeRecord host busBase bytes with
  | bridge bridge =>
    obtain reason | ⟨answer, bytes, below⟩ := child
    · simp [openedBy, Bus.answer]
    · cases answer <;> simp [openedBy, Bus.answer]
  | device device => simp [openedBy]
  | integration product => simp [openedBy]
  | untouched bytes => simp [openedBy]

/-- Scans as jobs that report devices and errors and leave the scans of the bridges. -/
def work : Worklist.Work Scan Report where
  here := Scan.here p host wanted
  more := Scan.more p host
  all scan := scan.bus.reports p host wanted (scan.entry.busBase p)
  size scan := scan.bus.buses host
  all_perm := by
    rintro ⟨entry, reason | ⟨answer, bytes, below⟩⟩
    · simp [Scan.here, Scan.more, Bus.answer, Bus.reports]
    cases answer with
    | failed reason => simp [Scan.here, Scan.more, Bus.answer, Bus.reports]
    | refused reason => simp [Scan.here, Scan.more, Bus.answer, Bus.reports]
    | table =>
      simp only [Scan.here, Scan.more, Bus.answer, Bus.reports, Bus.devices, Bus.bytes, Bus.child,
        Scan.record, Bus.block,
        reports_visit, List.flatMap_assoc]
      exact (List.flatMap_append_perm _ _ _).symm
  size_lt := by
    rintro ⟨entry, reason | ⟨answer, bytes, below⟩⟩
    · simp only [Scan.more, Bus.answer, List.map_nil, List.sum_nil, Bus.buses]
      omega
    cases answer with
    | failed reason =>
      simp only [Scan.more, Bus.answer, List.map_nil, List.sum_nil, Bus.buses]
      omega
    | refused reason =>
      simp only [Scan.more, Bus.answer, List.map_nil, List.sum_nil, Bus.buses]
      omega
    | table =>
      simp only [Scan.more, Bus.answer, Bus.buses, Bus.devices, Bus.bytes, Bus.child, Scan.record, Bus.block]
      have fewer := Worklist.sum_flatMap_le (List.range (recordsOf bytes.val - 1))
        (fun i => openedBy (decodeRecord host (entry.busBase p) ((bytes.val.drop (64 * (i + 1))).take 64)) (below i))
        (fun scan => scan.bus.buses host)
        (fun i => if isBridge host ((bytes.val.drop (64 * (i + 1))).take 64) then (below i).buses host else 0)
        (fun i => openedBy_buses host (entry.busBase p) _ (below i))
      omega

end

section
variable {p : Port} {host : Host}

/-- Every run of the search is a run of the list of work: the record is what the reports so
far make of it, with the number of scans outstanding. -/
theorem Steps.run {record : Search} {scans : List Scan} (counted : record.pending = scans.length) {n : Nat} {s : State}
    (steps : Steps p host ⟨record, scans⟩ n s) :
    ∃ reports, Worklist.Run (work p host record.wanted) scans n s.scans reports ∧
      s.record = { reports.foldl Search.note record with pending := s.scans.length } := by
  induction steps with
  | start => exact ⟨[], .start, by simp [← counted]⟩
  | step steps step ih =>
    obtain ⟨reports, run, same⟩ := ih
    cases step with
    | callback _ before after scan =>
      have mine : Search.wanted { reports.foldl Search.note record with
          pending := ((before ++ scan :: after).length : Int) } = record.wanted := by
        have kept := notes_same record reports
        funext product
        simp only [Search.wanted, kept.vendorId, kept.deviceId]
      dsimp only at same run ⊢
      rw [same, callback_eq scan _ mine]
      refine ⟨_, run.job, ?_⟩
      simp only [Search.after, notes_pending, List.foldl_append]
      congr 1
      simp only [List.length_append, List.length_cons]
      push_cast
      ring

theorem step_of_scans (s : State) (some : s.scans ≠ []) : ∃ s', Step p host s s' := by
  obtain ⟨record, scans⟩ := s
  cases scans with
  | nil => exact absurd rfl some
  | cons scan scans => exact ⟨_, .callback record [] scans scan⟩

/-! ### What the reports make of the record -/

variable (record : Search)

theorem notes_fill (reports : List Report) :
    (reports.foldl Search.note record).fill = record.fill + (reports.filterMap Report.device?).length := by
  induction reports generalizing record with
  | nil => rfl
  | cons report reports ih =>
    rw [List.foldl_cons, ih]
    cases report with
    | device device =>
      simp only [Search.note, Search.add, Report.device?, List.filterMap_cons, List.length_cons]
      omega
    | error reason => rfl

theorem notes_status (reports : List Report) :
    (reports.foldl Search.note record).status ≠ .ok ↔ record.status ≠ .ok ∨
      ∃ reason, Report.error reason ∈ reports := by
  induction reports generalizing record with
  | nil => simp
  | cons report reports ih =>
    rw [List.foldl_cons, ih]
    cases report with
    | device device => simp [Search.note, Search.add]
    | error reason =>
      have bad := reason.property
      constructor
      · intro _
        exact Or.inr ⟨reason, List.mem_cons_self⟩
      · intro _
        exact Or.inl bad

theorem notes_output (reports : List Report) (k : Nat) :
    (reports.foldl Search.note record).output k =
      if record.fill ≤ k ∧ (k : Int) < record.size then
        ((reports.filterMap Report.device?)[k - record.fill]?).getD (record.output k)
      else record.output k := by
  induction reports generalizing record with
  | nil => simp
  | cons report reports ih =>
    rw [List.foldl_cons, ih]
    cases report with
    | error reason => rfl
    | device device =>
      simp only [Search.note, Search.add, Report.device?, List.filterMap_cons]
      by_cases here : k = record.fill
      · subst here
        by_cases room : (record.fill : Int) < record.size
        · simp [room]
        · simp [room]
      · have apart : (if (record.fill : Int) < record.size then Function.update record.output record.fill device
            else record.output) k = record.output k := by
          split
          · exact Function.update_of_ne here _ _
          · rfl
        rw [apart]
        by_cases later : record.fill < k
        · obtain ⟨more, rfl⟩ := Nat.exists_eq_add_of_lt later
          have first : record.fill + more + 1 - (record.fill + 1) = more := by omega
          have next : record.fill + more + 1 - record.fill = more + 1 := by omega
          rw [first, next, List.getElem?_cons_succ]
          congr 1
          simp only [eq_iff_iff]
          omega
        · have none : ¬(record.fill ≤ k ∧ (k : Int) < record.size) := by omega
          rw [if_neg none]
          exact if_neg (by omega)

end

/-! ### What is in the tree -/

section
variable (p : Port) (host : Host) (wanted : SdbProduct → Bool)

/-- The wanted devices of a tree as their own records name them, each with the first addresses
of the bridges above it. Only buses with a certain answer are looked at. -/
def Bus.matching (seen : Answer → Bool) : Bus → List UInt64 → List (List UInt64 × SdbDevice)
  | .nowhere _, _ => []
  | .bus answer bytes below, above =>
    if seen answer then
      (List.range (recordsOf bytes.val - 1)).flatMap fun i =>
        match decodeRecord host 0 ((bytes.val.drop (64 * (i + 1))).take 64) with
        | .bridge bridge => (below i).matching seen (above ++ [bridge.sdbComponent.addrFirst])
        | .device device => if wanted device.sdbComponent.product then [(above, device)] else []
        | _ => []
    else []

def Answer.isTable : Answer → Bool
  | .table => true
  | _ => false

/-- The wanted devices of the whole tree. -/
def Bus.whole (bus : Bus) : List (List UInt64 × SdbDevice) := bus.matching host wanted (fun _ => true) []

/-- Those on the buses whose scans brought a table. -/
def Bus.reached (bus : Bus) : List (List UInt64 × SdbDevice) := bus.matching host wanted Answer.isTable []

/-- Some scan of the search failed. -/
def Bus.Fails : Bus → Prop
  | .nowhere _ => True
  | .bus .table bytes below => ∃ i < recordsOf bytes.val - 1,
      isBridge host ((bytes.val.drop (64 * (i + 1))).take 64) = true ∧ (below i).Fails
  | .bus (.failed _) _ _ => True
  | .bus (.refused _) _ _ => True

/-- The base of a bus below some bridges: an `eb_address_t`. -/
def baseOf (above : List UInt64) : UInt64 := UInt64.ofNat ((above.map UInt64.toNat).sum % p.wordMod)

def absolute (found : List UInt64 × SdbDevice) : SdbDevice :=
  { found.2 with sdbComponent := moved (baseOf p found.1) found.2.sdbComponent }

variable {p host wanted}

theorem wordMod_dvd (p : Port) : p.wordMod ∣ 2 ^ 64 := by
  apply Nat.pow_dvd_pow
  rcases p.word_size with h | h | h <;> omega

theorem baseOf_snoc (above : List UInt64) (bridge : SdbBridge) :
    (Entry.bus ⟨bridge.sdbChild + baseOf p above, moved (baseOf p above) bridge.sdbComponent⟩).busBase p =
      baseOf p (above ++ [bridge.sdbComponent.addrFirst]) := by
  have small : (above.map UInt64.toNat).sum % p.wordMod < 2 ^ 64 :=
    lt_of_lt_of_le (Nat.mod_lt _ (Nat.two_pow_pos _)) (Nat.le_of_dvd (Nat.two_pow_pos _) (wordMod_dvd p))
  have base : (baseOf p above).toNat = (above.map UInt64.toNat).sum % p.wordMod := by
    rw [baseOf, UInt64.toNat_ofNat', Nat.mod_eq_of_lt small]
  show UInt64.ofNat ((bridge.sdbComponent.addrFirst + baseOf p above).toNat % p.wordMod) =
    UInt64.ofNat (((above ++ [bridge.sdbComponent.addrFirst]).map UInt64.toNat).sum % p.wordMod)
  congr 1
  rw [UInt64.toNat_add, Nat.mod_mod_of_dvd _ (wordMod_dvd p), base, Nat.add_mod_mod, List.map_append, List.sum_append,
    Nat.add_comm]
  rfl

variable (p host wanted) in
theorem reports_devices (bus : Bus) (above : List UInt64) :
    (bus.reports p host wanted (baseOf p above)).filterMap Report.device? =
      (bus.matching host wanted Answer.isTable above).map (absolute p) := by
  induction bus generalizing above with
  | nowhere reason => rfl
  | bus answer bytes below ih =>
    cases answer with
    | failed reason => rfl
    | refused reason => rfl
    | table =>
      simp only [Bus.reports, Bus.matching, Answer.isTable, if_true]
      rw [List.filterMap_flatMap, List.map_flatMap]
      apply List.flatMap_congr
      intro i _
      rw [decodeRecord_moved (baseOf p above)]
      cases decodeRecord host 0 ((bytes.val.drop (64 * (i + 1))).take 64) with
      | bridge bridge =>
        simp only [movedRecord]
        rw [baseOf_snoc, ih]
      | device device =>
        simp only [movedRecord, moved]
        split
        · rfl
        · rfl
      | integration product => rfl
      | untouched bytes => rfl

variable (p host wanted) in
theorem reports_error (bus : Bus) (busBase : UInt64) :
    (∃ reason, Report.error reason ∈ bus.reports p host wanted busBase) ↔ bus.Fails host := by
  induction bus generalizing busBase with
  | nowhere reason => simp [Bus.reports, Bus.Fails]
  | bus answer bytes below ih =>
    cases answer with
    | failed reason => simp [Bus.reports, Bus.Fails]
    | refused reason => simp [Bus.reports, Bus.Fails]
    | table =>
      simp only [Bus.reports, Bus.Fails, List.mem_flatMap, List.mem_range]
      constructor
      · rintro ⟨reason, i, inside, member⟩
        refine ⟨i, inside, ?_⟩
        rw [isBridge_moved host busBase]
        cases decoded : decodeRecord host busBase ((bytes.val.drop (64 * (i + 1))).take 64) with
        | bridge bridge =>
          rw [decoded] at member
          exact ⟨rfl, (ih i _).mp ⟨reason, member⟩⟩
        | device device =>
          rw [decoded] at member
          simp at member
        | integration product =>
          rw [decoded] at member
          simp at member
        | untouched bytes =>
          rw [decoded] at member
          simp at member
      · rintro ⟨i, inside, bridge, fails⟩
        rw [isBridge_moved host busBase] at bridge
        cases decoded : decodeRecord host busBase ((bytes.val.drop (64 * (i + 1))).take 64) with
        | bridge record =>
          obtain ⟨reason, member⟩ := (ih i ((Entry.bus record).busBase p)).mpr fails
          refine ⟨reason, i, inside, ?_⟩
          rw [decoded]
          exact member
        | device device =>
          rw [decoded] at bridge
          cases bridge
        | integration product =>
          rw [decoded] at bridge
          cases bridge
        | untouched bytes =>
          rw [decoded] at bridge
          cases bridge

theorem matching_whole (bus : Bus) (above : List UInt64) (sound : ¬ bus.Fails host) :
    bus.matching host wanted Answer.isTable above = bus.matching host wanted (fun _ => true) above := by
  induction bus generalizing above with
  | nowhere reason => exact absurd trivial sound
  | bus answer bytes below ih =>
    cases answer with
    | failed reason => exact absurd trivial sound
    | refused reason => exact absurd trivial sound
    | table =>
      simp only [Bus.matching, Answer.isTable, if_true]
      apply List.flatMap_congr
      intro i member
      cases decoded : decodeRecord host 0 ((bytes.val.drop (64 * (i + 1))).take 64) with
      | bridge bridge =>
        apply ih
        intro fails
        refine sound ⟨i, List.mem_range.mp member, ?_, fails⟩
        rw [isBridge, decoded]
      | device device => rfl
      | integration product => rfl
      | untouched bytes => rfl

end

/-! ### The result -/

section
variable {p : Port} {host : Host} {root : Bus} {vendorId : UInt64} {deviceId : UInt32} {output : Nat →
  SdbDevice} {size : Int}
  {n : Nat} {s : State}

def wantedBy (vendorId : UInt64) (deviceId : UInt32) (product : SdbProduct) : Bool :=
  product.vendorId == vendorId && product.deviceId == deviceId

def begun (vendorId : UInt64) (deviceId : UInt32) (output : Nat → SdbDevice) (size : Int) : Search :=
  ⟨vendorId, output, deviceId, size, 0, 1, .ok⟩

theorem Step.scans_ne_nil {s' : State} (step : Step p host s s') : s.scans ≠ [] := by
  cases step
  simp

theorem steps_nil {record : Search} (steps : Steps p host ⟨record, []⟩ n s) : n = 0 ∧ s = ⟨record, []⟩ := by
  induction steps with
  | start => exact ⟨rfl, rfl⟩
  | step steps step ih =>
    rw [ih.2] at step
    exact absurd rfl step.scans_ne_nil

section
variable (steps : Steps p host (ebSdbFindByIdentity root vendorId deviceId output size) n s)
include steps

theorem steps_begun :
    (∃ reason, root.answer = .refused reason ∧ n = 0 ∧
      s = ⟨{ begun vendorId deviceId output size with status := reason.val }, []⟩) ∨
      (∀ reason, root.answer ≠ .refused reason) ∧
        Steps p host ⟨begun vendorId deviceId output size, [⟨.root, root⟩]⟩ n s := by
  rw [ebSdbFindByIdentity] at steps
  cases answer : root.answer with
  | refused reason =>
    rw [answer] at steps
    exact Or.inl ⟨reason, rfl, steps_nil steps⟩
  | table =>
    rw [answer] at steps
    exact Or.inr ⟨by simp, steps⟩
  | failed reason =>
    rw [answer] at steps
    exact Or.inr ⟨by simp, steps⟩

theorem steps_progress : n ≤ root.buses host ∧ (s.Returned root ∨ ∃ s', Step p host s s') := by
  rcases steps_begun steps with ⟨reason, answer, rfl, rfl⟩ | ⟨_, begins⟩
  · exact ⟨Nat.zero_le _, Or.inl (Or.inl ⟨reason, answer⟩)⟩
  · obtain ⟨reports, run, same⟩ := begins.run rfl
    have bound := run.bound
    rw [List.map_singleton, List.sum_singleton] at bound
    refine ⟨(Nat.le_add_right n _).trans bound, ?_⟩
    by_cases some : s.scans = []
    · refine Or.inl (Or.inr ?_)
      rw [same, some]
      exact le_rfl
    · exact Or.inr (step_of_scans s some)

theorem returned_reports (returned : s.Returned root) :
    ∃ (reports : List Report) (pending : Int), reports.Perm (root.reports p host (wantedBy vendorId deviceId) 0) ∧
      s.record = { reports.foldl Search.note (begun vendorId deviceId output size) with pending := pending } := by
  rcases steps_begun steps with ⟨reason, answer, _, rfl⟩ | ⟨opened, begins⟩
  · obtain other | ⟨_, bytes, below⟩ := root
    · cases answer
    cases (show _ = Answer.refused reason from answer)
    exact ⟨[.error reason], 1, List.Perm.refl _, rfl⟩
  · obtain ⟨reports, run, same⟩ := begins.run rfl
    have pending : s.record.pending ≤ 0 := by
      rcases returned with ⟨reason, refused⟩ | ended
      · exact absurd refused (opened reason)
      · exact ended
    rw [same] at pending
    have none : s.scans = [] := by
      apply List.eq_nil_of_length_eq_zero
      simp only [] at pending
      omega
    have perm := run.perm
    rw [none, List.flatMap_nil, List.append_nil, List.flatMap_singleton] at perm
    exact ⟨reports, _, perm, same⟩

end

theorem baseOf_nil : baseOf p [] = 0 := rfl

theorem returned_devices {reports : List Report}
    (perm : reports.Perm (root.reports p host (wantedBy vendorId deviceId) 0)) :
    (reports.filterMap Report.device?).Perm ((root.reached host (wantedBy vendorId deviceId)).map (absolute p)) := by
  have devices := reports_devices p host (wantedBy vendorId deviceId) root []
  rw [baseOf_nil] at devices
  rw [Bus.reached, ← devices]
  exact perm.filterMap _

theorem returned_count (steps : Steps p host (ebSdbFindByIdentity root vendorId deviceId output size) n s)
    (returned : s.Returned root) : s.record.fill = (root.reached host (wantedBy vendorId deviceId)).length := by
  obtain ⟨reports, pending, perm, same⟩ := returned_reports steps returned
  have length := (returned_devices perm).length_eq
  rw [List.length_map] at length
  rw [same, ← length]
  exact (notes_fill _ reports).trans (Nat.zero_add _)

theorem returned_status (steps : Steps p host (ebSdbFindByIdentity root vendorId deviceId output size) n s)
    (returned : s.Returned root) : s.record.status ≠ .ok ↔ root.Fails host := by
  obtain ⟨reports, pending, perm, same⟩ := returned_reports steps returned
  have status := notes_status (begun vendorId deviceId output size) reports
  rw [← reports_error p host (wantedBy vendorId deviceId) root 0, same]
  refine status.trans ?_
  simp only [perm.mem_iff, begun, ne_eq, not_true_eq_false, false_or]

/-- The search for an identity ends after a callback for each bus at most, in whatever order
they come. It then has counted the wanted devices of all buses it could scan, copied out as many
of them as there is room for, each once and with its absolute addresses, and returns an error
exactly if some scan failed. Without an error the buses are those of the whole tree. -/
theorem findByIdentity_result (steps : Steps p host (ebSdbFindByIdentity root vendorId deviceId output size) n s) :
    n ≤ root.buses host ∧ (s.Returned root ∨ ∃ s', Step p host s s') ∧
      (s.Returned root →
        s.record.fill = (root.reached host (wantedBy vendorId deviceId)).length ∧
          (∃ found : List SdbDevice, found.Perm ((root.reached host (wantedBy vendorId deviceId)).map (absolute p)) ∧
            ∀ k, s.record.output k = if (k : Int) < size then found[k]?.getD (output k) else output k) ∧
          (s.record.status ≠ .ok ↔ root.Fails host) ∧
          (s.record.status = .ok →
            root.reached host (wantedBy vendorId deviceId) = root.whole host (wantedBy vendorId deviceId))) := by
  obtain ⟨few, progress⟩ := steps_progress steps
  refine ⟨few, progress, fun returned => ⟨returned_count steps returned, ?_, returned_status steps returned, ?_⟩⟩
  · obtain ⟨reports, pending, perm, same⟩ := returned_reports steps returned
    refine ⟨_, returned_devices perm, fun k => ?_⟩
    rw [same]
    have copied := notes_output (begun vendorId deviceId output size) reports k
    simpa [begun] using copied
  · intro ok
    apply matching_whole
    intro fails
    exact (returned_status steps returned).mpr fails ok

theorem exists_returned (p : Port) (host : Host) (root : Bus) (vendorId : UInt64) (deviceId : UInt32)
    (output : Nat → SdbDevice) (size : Int) :
    ∃ n s, Steps p host (ebSdbFindByIdentity root vendorId deviceId output size) n s ∧ s.Returned root := by
  by_contra never
  have longer : ∀ n, ∃ s, Steps p host (ebSdbFindByIdentity root vendorId deviceId output size) n s := by
    intro n
    induction n with
    | zero => exact ⟨_, .start⟩
    | succ n ih =>
      obtain ⟨s, steps⟩ := ih
      rcases (steps_progress steps).2 with returned | ⟨s', step⟩
      · exact absurd ⟨n, s, steps, returned⟩ never
      · exact ⟨s', steps.step step⟩
  obtain ⟨s, steps⟩ := longer (root.buses host + 1)
  have few := (steps_progress steps).1
  omega

end

/-! ### A bus that cannot be read -/

def oneRecord (recordType : UInt8) : List UInt8 :=
  [0x53, 0x44, 0x42, 0x2d, 0x00, 0x02] ++ List.replicate 121 0 ++ [recordType]

theorem oneRecord_long (recordType : UInt8) : 64 ≤ (oneRecord recordType).length := by
  simp [oneRecord]

def twoBuses (behind : Answer) : Bus :=
  .bus .table ⟨oneRecord sdbRecordBridge, oneRecord_long _⟩ fun _ =>
    .bus behind ⟨oneRecord sdbRecordDevice, oneRecord_long _⟩ fun _ => .nowhere ⟨.fail, by decide⟩

def lostBus : Bus := twoBuses (.failed ⟨.timeout, by decide⟩)

def blank : Nat → SdbDevice := fun _ => decodeDevice .little 0 []

theorem lostBus_whole : (lostBus.whole .little (wantedBy 0 0)).length = 1 := by decide +kernel

theorem lostBus_reached : (lostBus.reached .little (wantedBy 0 0)).length = 0 := by decide +kernel

/-- A device behind a bridge is in the tree, but the scan of its bus does not end well: the
search counts nothing. -/
theorem not_findByIdentity_whole : ∃ n s,
    Steps .wishbone32 .little (ebSdbFindByIdentity lostBus 0 0 blank 1) n s ∧ s.Returned lostBus ∧ s.record.fill = 0 ∧
      (lostBus.whole .little (wantedBy 0 0)).length = 1 := by
  obtain ⟨n, s, steps, returned⟩ := exists_returned .wishbone32 .little lostBus 0 0 blank 1
  refine ⟨n, s, steps, returned, ?_, lostBus_whole⟩
  rw [returned_count steps returned, lostBus_reached]

/-- With the second bus answering, the search finds its device. -/
theorem findByIdentity_result_two : ∃ n s,
    Steps .wishbone32 .little (ebSdbFindByIdentity (twoBuses .table) 0 0 blank 1) n s ∧ n ≤ 2 ∧ s.record.fill = 1 ∧
      s.record.status = .ok := by
  obtain ⟨n, s, steps, returned⟩ := exists_returned .wishbone32 .little (twoBuses .table) 0 0 blank 1
  obtain ⟨few, _, result⟩ := findByIdentity_result steps
  obtain ⟨count, _, status, _⟩ := result returned
  have buses : (twoBuses .table).buses .little = 2 := by decide +kernel
  have reached : ((twoBuses .table).reached .little (wantedBy 0 0)).length = 1 := by decide +kernel
  refine ⟨n, s, steps, buses ▸ few, count.trans reached, ?_⟩
  by_contra bad
  obtain ⟨i, inside, _, fails⟩ := status.mp bad
  obtain ⟨j, inside', bridge, _⟩ := fails
  have only : j < 1 := by
    have one : recordsOf (oneRecord sdbRecordDevice) - 1 = 1 := by decide +kernel
    rw [← one]
    exact inside'
  obtain rfl : j = 0 := by omega
  have none : isBridge .little (((oneRecord sdbRecordDevice).drop (64 * (0 + 1))).take 64) = false := by decide +kernel
  rw [none] at bridge
  cases bridge

end BelProject.Etherbone.FindByIdentity
