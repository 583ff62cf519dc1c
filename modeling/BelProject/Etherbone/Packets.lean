import BelProject.Etherbone.Flush

/-! Packets of a flush. On a packet transport the buffer of `eb_device_flush` always is a
header, the whole cycles since the last packet and the part of the current cycle that is
already formatted, so that the packets are the parcels of a packing of the cycles. -/

namespace BelProject.Etherbone.Packets
open BelProject.Library Packing Width Operations Wire Format Flush

section
variable (p : Port)

/-- Does the record ask for an answer? -/
def reading (r : Record) : Bool := !r.reads.isEmpty

def size (r : Record) : Nat := (r.encode p).length

theorem length_stream (records : List Record) : (stream p records).length = (records.map (size p)).sum := by
  simp only [stream, List.length_flatMap]
  rfl

theorem size_pos (r : Record) : 0 < size p r := by
  have := p.four_le_recordAlignment
  rw [size, Record.length_encode]
  omega

theorem length_packetHeader (noReads : Bool) : (packetHeader p noReads).length = p.headerAlignment := by
  have := p.four_le_recordAlignment
  simp only [packetHeader, List.length_append, List.length_cons, List.length_nil, List.length_replicate,
    Port.headerAlignment]
  omega

theorem modify_packetHeader (noReads : Bool) (rest : List Byte) :
    (packetHeader p noReads ++ rest).modify 2 (· ||| headerNr) = packetHeader p true ++ rest := by
  cases noReads <;> rfl

def packet (content : Bool × List (List Record)) : List Byte :=
  packetHeader p content.1 ++ stream p content.2.flatten

/-- The no-reads bit of every parcel; once a packet has it, all later ones of the flush do. -/
def flagged : Bool → List (Parcel Record) → List (Bool × List (List Record))
  | _, [] => []
  | noReads, parcel :: parcels =>
    (noReads || !parcel.since.any reading, parcel.groups) ::
      flagged (noReads || !parcel.since.any reading) parcels

def promised (parcels : List (Parcel Record)) : Bool := parcels.any fun parcel => !parcel.since.any reading

theorem flagged_append (noReads : Bool) (parcels : List (Parcel Record)) (last : Parcel Record) :
    flagged noReads (parcels ++ [last]) = flagged noReads parcels ++
      [(noReads || promised parcels || !last.since.any reading, last.groups)] := by
  induction parcels generalizing noReads with
  | nil => simp [flagged, promised]
  | cons parcel parcels ih => simp only [List.cons_append, flagged, ih, promised, List.any_cons, Bool.or_assoc]

theorem flagged_groups (noReads : Bool) (parcels : List (Parcel Record)) :
    (flagged noReads parcels).map Prod.snd = parcels.map Parcel.groups := by
  induction parcels generalizing noReads with
  | nil => rfl
  | cons parcel parcels ih => simp only [flagged, List.map_cons, ih]

structure Holds (s : Pack) (d : Draft Record) : Prop where
  buffer_eq : s.buffer = packetHeader p (promised d.shipped) ++ stream p d.items
  cptr_eq : s.cptr = p.headerAlignment + (stream p d.groups.flatten).length
  hasReads_eq : s.hasReads = d.since.any reading
  sends_eq : sends s.effects = (flagged false d.shipped).map (packet p)
  solid : ∀ group ∈ d.groups, group ≠ []

variable {d : Draft Record} {s : Pack} {mtu : Nat}

theorem Holds.length (holds : Holds p s d) :
    s.buffer.length = d.used (size p) p.headerAlignment := by
  rw [holds.buffer_eq, List.length_append, length_packetHeader, length_stream, Draft.used]

theorem Holds.toggle (holds : Holds p s d) :
    s.toggle.buffer = packetHeader p (promised d.shipped || !d.since.any reading) ++ stream p d.items := by
  unfold Pack.toggle
  rw [holds.hasReads_eq]
  cases read : d.since.any reading with
  | true =>
    simp only [if_true, Bool.not_true, Bool.or_false]
    exact holds.buffer_eq
  | false =>
    simp only [Bool.false_eq_true, if_false, Bool.not_false, Bool.or_true]
    rw [holds.buffer_eq, modify_packetHeader]

theorem toggle_cptr (s : Pack) : s.toggle.cptr = s.cptr := by
  unfold Pack.toggle
  split <;> rfl

theorem toggle_effects (s : Pack) : s.toggle.effects = s.effects := by
  unfold Pack.toggle
  split <;> rfl

theorem Holds.cptr_iff (holds : Holds p s d) :
    s.cptr ≠ p.headerAlignment ↔ d.groups.isEmpty = false := by
  rw [holds.cptr_eq]
  cases groups : d.groups with
  | nil => simp [stream]
  | cons group rest =>
    have some : group ≠ [] := holds.solid group (groups ▸ List.mem_cons_self)
    obtain ⟨r, tail, rfl⟩ := List.exists_cons_of_ne_nil some
    have positive := size_pos p r
    simp only [List.flatten_cons, List.cons_append, stream, List.flatMap_cons, List.length_append, List.isEmpty_cons,
      size] at positive ⊢
    constructor
    · intro _
      trivial
    · intro _
      omega

theorem Holds.flushPrior (holds : Holds p s d) :
    Holds p (s.flushPrior p) d.ship := by
  unfold Pack.flushPrior Draft.ship
  by_cases prior : s.cptr ≠ p.headerAlignment
  · have some := (holds.cptr_iff p).mp prior
    have buffer := holds.toggle p
    have cptr := holds.cptr_eq
    have header := length_packetHeader p (promised d.shipped || !d.since.any reading)
    rw [if_pos prior]
    simp only [some, Bool.false_eq_true, if_false]
    have cut : s.toggle.buffer.take s.toggle.cptr =
        packetHeader p (promised d.shipped || !d.since.any reading) ++ stream p d.groups.flatten := by
      rw [buffer, toggle_cptr, cptr, Draft.items, stream_append, ← List.append_assoc, ← header, ← List.length_append,
        List.take_left]
    have rest : s.toggle.buffer.drop s.toggle.cptr = stream p d.pending := by
      rw [buffer, toggle_cptr, cptr, Draft.items, stream_append, ← List.append_assoc, ← header, ← List.length_append,
        List.drop_left]
    have front : s.toggle.buffer.take p.headerAlignment =
        packetHeader p (promised d.shipped || !d.since.any reading) := by
      rw [buffer, ← header, List.take_left]
    refine ⟨?_, ?_, ?_, ?_, ?_⟩
    · dsimp only
      rw [front, rest]
      simp only [promised, List.any_append, List.any_cons, List.any_nil, Bool.or_false, Draft.items,
        List.flatten_nil, List.nil_append]
    · simp [stream]
    · rfl
    · dsimp only
      rw [cut, sends_append, toggle_effects, holds.sends_eq, flagged_append, Bool.false_or, List.map_append]
      rfl
    · simp
  · have none : d.groups.isEmpty = true := by
      by_contra some
      exact prior ((holds.cptr_iff p).mpr (Bool.eq_false_of_not_eq_true some))
    rw [if_neg prior, if_pos none]
    exact holds

theorem Holds.append (holds : Holds p s d) (r : Record) :
    Holds p (s.append p r) (d.push r) where
  buffer_eq := by
    simp only [Pack.append, Draft.push, Draft.items, holds.buffer_eq, stream, List.flatMap_append, List.append_assoc,
      List.flatMap_cons, List.flatMap_nil, List.append_nil]
  cptr_eq := holds.cptr_eq
  hasReads_eq := by
    simp only [Pack.append, Draft.push, holds.hasReads_eq, List.any_append, List.any_cons, List.any_nil,
      Bool.or_false]
    rfl
  sends_eq := holds.sends_eq
  solid := holds.solid

theorem Holds.reserve (packet : mtu ≠ 0) (holds : Holds p s d) (r : Record) :
    let room := s.reserve p mtu (p.recordAlignment + r.total * p.alignment)
    let placed := place (size p) p.headerAlignment mtu d r
    room.2 = placed.2 ∧ (room.2 = true → Holds p (room.1.append p r) placed.1) ∧
      (room.2 = false → Holds p room.1 placed.1) := by
  intro room placed
  have sizeEq : size p r = p.recordAlignment + r.total * p.alignment := Record.length_encode p r
  have shipped := holds.flushPrior p
  have before := holds.length p
  have after := shipped.length p
  simp only [room, placed, Pack.reserve, place, eob, if_neg packet, ← sizeEq, before]
  by_cases fits : d.used (size p) p.headerAlignment + size p r ≤ mtu
  · simp only [if_pos fits, if_neg (not_lt.mpr fits)]
    exact ⟨trivial, fun _ => holds.append p r, fun bad => Bool.noConfusion bad⟩
  · simp only [if_neg fits, if_pos (not_le.mp fits), after]
    by_cases alone : d.ship.used (size p) p.headerAlignment + size p r ≤ mtu
    · simp only [alone, decide_true, if_true]
      exact ⟨trivial, fun _ => shipped.append p r, fun bad => Bool.noConfusion bad⟩
    · simp only [alone, decide_false, if_false]
      exact ⟨trivial, fun bad => Bool.noConfusion bad, fun _ => shipped⟩

theorem Holds.records (packet : mtu ≠ 0) (rba : Nat)
    (batches : List Batch) (holds : Holds p s d) (some : d.pending ≠ [] ∨ batches ≠ []) :
    let result := s.records p mtu rba batches
    let placed := placeGroup (size p) p.headerAlignment mtu d (batches.map (Batch.toRecord p rba))
    (placed.2 = true → result.2 = none ∧ Holds p { result.1 with cptr := result.1.buffer.length } placed.1) ∧
      (placed.2 = false → result.2 ≠ none ∧ Holds p result.1 placed.1) := by
  induction batches generalizing s d with
  | nil =>
    intro result placed
    refine ⟨fun _ => ⟨rfl, ⟨?_, ?_, holds.hasReads_eq, holds.sends_eq, ?_⟩⟩, fun bad => Bool.noConfusion bad⟩
    · simp only [result, placed, Pack.records, List.map_nil, placeGroup, holds.buffer_eq, Draft.items,
        List.flatten_append, List.flatten_cons, List.flatten_nil, List.append_nil]
    · simp only [result, placed, Pack.records, List.map_nil, placeGroup, holds.buffer_eq, Draft.items,
        List.flatten_append, List.flatten_cons, List.flatten_nil, List.append_nil, List.length_append,
        length_packetHeader]
    · intro group member
      simp only [placed, List.map_nil, placeGroup, List.mem_append, List.mem_singleton] at member
      rcases member with before | rfl
      · exact holds.solid group before
      · exact some.resolve_right (fun none => none rfl)
  | cons batch batches ih =>
    intro result placed
    obtain ⟨same, yes, no⟩ := holds.reserve p packet (batch.toRecord p rba)
    simp only [result, placed, Pack.records, List.map_cons, placeGroup]
    generalize s.reserve p mtu _ = room at same yes no ⊢
    have pending := place_pending (size p) p.headerAlignment mtu d (batch.toRecord p rba)
    have groups := place_groups (size p) p.headerAlignment mtu d (batch.toRecord p rba)
    generalize place (size p) p.headerAlignment mtu d (batch.toRecord p rba) = step at same yes no pending groups ⊢
    obtain ⟨roomed, fits⟩ := room
    obtain ⟨next, ok⟩ := step
    dsimp only at same yes no pending groups
    subst same
    cases fits with
    | true => exact ih (yes rfl) (Or.inl (by rw [pending rfl]; simp))
    | false =>
      have stopped := no rfl
      refine ⟨fun bad => Bool.noConfusion bad, fun _ => ⟨by simp, ⟨?_, stopped.cptr_eq, stopped.hasReads_eq,
        stopped.sends_eq, stopped.solid⟩⟩⟩
      dsimp only
      rw [stopped.buffer_eq, ← length_packetHeader p (promised next.shipped), List.take_left, Draft.items, groups rfl]
      simp [stream]

/-- The records of a cycle's batches when replies go to `rba`. -/
def cycleRecords (rba : Nat) (operations : List Operation) : List Record :=
  (formatCycle p operations).map (Batch.toRecord p rba)

theorem formatCycle_ne_nil (operations : List Operation) : formatCycle p operations ≠ [] := by
  unfold formatCycle
  simp only [formatLoop]
  split <;> simp

theorem flushPrior_callbacks (s : Pack) : callbacks (s.flushPrior p).effects = callbacks s.effects := by
  unfold Pack.flushPrior
  split
  · simp only [callbacks_append, toggle_effects]
    exact List.append_nil _
  · rfl

theorem flushPrior_rba (s : Pack) : (s.flushPrior p).rba = s.rba := by
  unfold Pack.flushPrior Pack.toggle
  split
  · dsimp only
    split <;> rfl
  · rfl

theorem reserve_frame (mtu length : Nat) (s : Pack) :
    callbacks (s.reserve p mtu length).1.effects = callbacks s.effects ∧ (s.reserve p mtu length).1.rba = s.rba := by
  unfold Pack.reserve
  split
  · split
    · exact ⟨by simp only [Pack.emit, callbacks_append]; exact List.append_nil _, rfl⟩
    · exact ⟨flushPrior_callbacks p s, flushPrior_rba p s⟩
  · exact ⟨rfl, rfl⟩

theorem records_frame (mtu rba : Nat) (batches : List Batch) (s : Pack) :
    callbacks (s.records p mtu rba batches).1.effects = callbacks s.effects ∧
      (s.records p mtu rba batches).1.rba = s.rba := by
  induction batches generalizing s with
  | nil => exact ⟨rfl, rfl⟩
  | cons batch batches ih =>
    have frame := reserve_frame p mtu (p.recordAlignment + (batch.toRecord p rba).total * p.alignment) s
    simp only [Pack.records]
    generalize s.reserve p mtu _ = room at frame ⊢
    obtain ⟨roomed, fits⟩ := room
    cases fits with
    | true =>
      obtain ⟨same, kept⟩ := ih (roomed.append p (batch.toRecord p rba))
      exact ⟨same.trans frame.1, kept.trans frame.2⟩
    | false => exact frame

/-- What became of one cycle of a flush. -/
inductive Fate where
  | sent (records : List Record)
  | refused (status : Status)

def Fate.records? : Fate → Option (List Record)
  | .sent records => some records
  | .refused _ => none

/-- The callback a fate comes with: none as long as a reply is awaited. -/
def Fate.callback? (cycle : Cycle) : Fate → Option (Nat × Status)
  | .sent records => if records.any reading then none else some (cycle.handle, .ok)
  | .refused status => some (cycle.handle, status)

/-- The cycle line drops with the last record and not before. -/
def WholeCycle (records : List Record) : Prop :=
  ∃ init last, records = init ++ [last] ∧ last.has recordCyc = true ∧ ∀ r ∈ init, r.has recordCyc = false

/-- A cycle that was sent went out as it is formatted; one that was refused had a reason. -/
def Lawful (alloc : Nat → Bool) (refusal : Cycle → Status → Prop) (cycle : Cycle) : Fate → Prop
  | .sent records => WholeCycle records ∧
      ∃ operations rba, screen p alloc cycle = .ok operations ∧ records = cycleRecords p rba operations
  | .refused status => refusal cycle status

/-- The packets of a flush are headers with whole cycles in closing order, none longer than
the MTU, and every cycle is in one of them or has been refused with a callback. -/
def Packetised (mtu : Nat) (alloc : Nat → Bool) (refusal : Cycle → Status → Prop) (cycles : List Cycle)
    (effects : List Effect) : Prop :=
  ∃ (fates : List Fate) (contents : List (Bool × List (List Record))),
    List.Forall₂ (Lawful p alloc refusal) cycles fates ∧
    sends effects = contents.map (packet p) ∧
    (contents.map Prod.snd).flatten = fates.filterMap Fate.records? ∧
    (∀ sent ∈ sends effects, sent.length ≤ mtu) ∧
    callbacks effects = (List.zipWith Fate.callback? cycles fates).reduceOption

theorem toRecord_cyc (rba : Nat) (batch : Batch) : (batch.toRecord p rba).has recordCyc = batch.cycleEnd := by
  have bits : ∀ rcfg wcfg fifo ended : Bool, ((recordBca ||| recordRff ||| (if rcfg then recordRca else 0) |||
      (if wcfg then recordWca else 0) ||| (if fifo then recordWff else 0) |||
      (if ended then recordCyc else 0)) &&& recordCyc != 0) = ended := by decide
  exact bits batch.rcfg batch.wcfg batch.fifo batch.cycleEnd

variable {operations : List Operation}

theorem formats_wholeCycle {check : Bool} {maxops ops rba : Nat}
    {batches : List Batch} (formats : Formats p check maxops ops operations batches) :
    WholeCycle (batches.map (Batch.toRecord p rba)) := by
  induction formats with
  | last ended => exact ⟨[], _, rfl, (toRecord_cyc p rba _).trans ended, by simp⟩
  | more running _ ih =>
    obtain ⟨init, last, same, ended, before⟩ := ih
    refine ⟨_ :: init, last, by rw [List.map_cons, same]; rfl, ended, ?_⟩
    intro r member
    rcases List.mem_cons.mp member with rfl | later
    · exact (toRecord_cyc p rba _).trans running
    · exact before r later

theorem toRecord_reading (rba : Nat) (batch : Batch) :
    reading (batch.toRecord p rba) = (batch.inserted || !batch.reads.isEmpty) := by
  simp only [reading, Batch.toRecord]
  cases inserted : batch.inserted with
  | true => simp
  | false => cases batch.reads <;> simp

theorem readback_records (rba : Nat) (batches : List Batch) :
    readback batches = (batches.map (Batch.toRecord p rba)).any reading := by
  simp only [readback, List.any_map, Function.comp_def, toRecord_reading]

theorem accepted_of_screen {alloc : Nat → Bool} {cycle : Cycle}
    (screened : screen p alloc cycle = .ok operations) : ∀ op ∈ operations, Accepted p op := by
  unfold screen at screened
  split at screened
  · cases screened
  · cases screened
  · split at screened
    · cases screened
    next passed =>
      split at screened
      · cases screened
        exact accepted_of_checkOperations p _ _ passed
      · cases screened

theorem screen_error {alloc : Nat → Bool} {cycle : Cycle} {status : Status}
    (screened : screen p alloc cycle = .error (operations, status)) : status ≠ .ok ∨ cycle.ops = .live [] := by
  unfold screen at screened
  split at screened
  · cases screened
    exact Or.inl (by simp)
  next empty => exact Or.inr empty
  · split at screened
    next failed =>
      cases screened
      exact Or.inl (checkOperations_error p _ _ _ failed)
    next =>
      split at screened
      · cases screened
      · cases screened
        exact Or.inl (by simp)

def shape (r : Record) : Nat × Bool := (size p r, reading r)

theorem shape_toRecord (rba : Nat) (batch : Batch) : shape p (batch.toRecord p rba) = shape p (batch.toRecord p 0) := by
  have total : (batch.toRecord p rba).total = (batch.toRecord p 0).total := rfl
  simp only [shape, toRecord_reading, size, Record.length_encode, total]

def acceptedShapes (alloc : Nat → Bool) (cycles : List Cycle) : List (List (Nat × Bool)) :=
  cycles.filterMap fun cycle => match screen p alloc cycle with
    | .ok operations => some ((cycleRecords p 0 operations).map (shape p))
    | .error _ => none

theorem acceptedShapes_cons (alloc : Nat → Bool) (cycle : Cycle) (cycles : List Cycle) :
    acceptedShapes p alloc (cycle :: cycles) = acceptedShapes p alloc [cycle] ++ acceptedShapes p alloc cycles := by
  simp only [acceptedShapes, List.filterMap_cons, List.filterMap_nil]
  cases screen p alloc cycle <;> rfl

/-- Between two cycles the buffer holds a draft without an open group. -/
structure Between (mtu : Nat) (s : Pack) (d : Draft Record) : Prop where
  holds : Holds p s d
  fits : d.Fits (size p) p.headerAlignment mtu
  closed : d.pending = []

def refusals (cycle : Cycle) (status : Status) : Prop := status ≠ .ok ∨ cycle.ops = .live []

theorem Between.emit (between : Between p mtu s d) (effect : Effect)
    (silent : sends [effect] = []) : Between p mtu (s.emit effect) d := by
  refine ⟨⟨between.holds.buffer_eq, between.holds.cptr_eq, between.holds.hasReads_eq, ?_, between.holds.solid⟩,
    between.fits, between.closed⟩
  simp only [Pack.emit, sends_append, silent, List.append_nil]
  exact between.holds.sends_eq

theorem flushCycle_between (packet : mtu ≠ 0) (time : Nat) (alloc : Nat → Bool) (s : Pack)
    (d : Draft Record) (cycle : Cycle) (between : Between p mtu s d) :
    ∃ fate d', Lawful p alloc refusals cycle fate ∧ Between p mtu (flushCycle p mtu time alloc s cycle) d' ∧
      d'.whole = d.whole ++ fate.records?.toList ∧
      callbacks (flushCycle p mtu time alloc s cycle).effects =
        callbacks s.effects ++ (fate.callback? cycle).toList ∧
      d'.map (shape p) = placeAll Prod.fst p.headerAlignment mtu (d.map (shape p)) (acceptedShapes p alloc [cycle]) := by
  unfold flushCycle
  split
  next operations status screened =>
    refine ⟨.refused status, d, screen_error p screened, between.emit p _ rfl, by simp [Fate.records?], ?_, ?_⟩
    · simp only [Pack.emit, callbacks_append]
      rfl
    · simp only [acceptedShapes, List.filterMap_cons, List.filterMap_nil, screened, placeAll]
  next operations screened =>
    dsimp only
    have some := formatCycle_ne_nil p operations
    have formats := formatCycle_formats p operations (accepted_of_screen p screened)
    have records := between.holds.records p packet s.rba (formatCycle p operations) (Or.inr some)
    have frame := records_frame p mtu s.rba (formatCycle p operations) s
    have whole := placeGroup_whole (size p) p.headerAlignment mtu d
      ((formatCycle p operations).map (Batch.toRecord p s.rba))
    have fits := placeGroup_fits ((formatCycle p operations).map (Batch.toRecord p s.rba)) between.fits
      between.holds.solid (by simp [some])
    have any := readback_records p s.rba (formatCycle p operations)
    have shapes : (cycleRecords p 0 operations).map (shape p) =
        ((formatCycle p operations).map (Batch.toRecord p s.rba)).map (shape p) := by
      simp only [cycleRecords, List.map_map]
      apply List.map_congr_left
      intro batch _
      exact (shape_toRecord p s.rba batch).symm
    have mapped : (placeGroup (size p) p.headerAlignment mtu d
        ((formatCycle p operations).map (Batch.toRecord p s.rba))).1.map (shape p) =
        placeAll Prod.fst p.headerAlignment mtu (d.map (shape p)) (acceptedShapes p alloc [cycle]) := by
      simp only [acceptedShapes, List.filterMap_cons, List.filterMap_nil, screened, placeAll, shapes, map_placeGroup]
      rfl
    generalize placed : placeGroup (size p) p.headerAlignment mtu d
      ((formatCycle p operations).map (Batch.toRecord p s.rba)) = result at records whole fits mapped
    obtain ⟨next, ok⟩ := result
    dsimp only at records whole fits mapped
    cases ok with
    | true =>
      obtain ⟨none, holds⟩ := records.1 rfl
      generalize s.records p mtu s.rba (formatCycle p operations) = written at none holds frame ⊢
      obtain ⟨w, rest⟩ := written
      dsimp only at none holds frame ⊢
      subst none
      dsimp only
      have after : Between p mtu { w with cptr := w.buffer.length } next := ⟨holds, fits.1, whole.2.2⟩
      refine ⟨.sent ((formatCycle p operations).map (Batch.toRecord p s.rba)), next,
        ⟨formats_wholeCycle p formats, operations, s.rba, screened, rfl⟩, ?_, ?_, ?_, mapped⟩
      · split
        · have responded := after.emit p (.respond (newResponse time w.rba cycle.handle operations)) rfl
          exact ⟨⟨responded.holds.buffer_eq, responded.holds.cptr_eq, responded.holds.hasReads_eq,
            responded.holds.sends_eq, responded.holds.solid⟩, responded.fits, responded.closed⟩
        · exact after.emit p _ rfl
      · rw [whole.1 rfl, between.closed, List.nil_append]
        rfl
      · simp only [Fate.callback?, ← any]
        split
        · simp only [Pack.emit, callbacks_append, frame.1]
          rfl
        · simp only [Pack.emit, callbacks_append, frame.1]
          rfl
    | false =>
      obtain ⟨stopped, holds⟩ := records.2 rfl
      generalize s.records p mtu s.rba (formatCycle p operations) = written at stopped holds frame ⊢
      obtain ⟨w, rest⟩ := written
      dsimp only at stopped holds frame ⊢
      obtain ⟨rest, rfl⟩ := Option.ne_none_iff_exists'.mp stopped
      refine ⟨.refused .overflow, next, Or.inl (by simp), ?_, ?_, ?_, mapped⟩
      · exact Between.emit p ⟨holds, fits.1, whole.2.2⟩ _ rfl
      · rw [whole.2.1 rfl]
        exact (List.append_nil _).symm
      · simp only [Pack.emit, callbacks_append, frame.1]
        rfl

theorem flushCycles_between (packet : mtu ≠ 0) (time : Nat) (alloc : Nat → Bool)
    (cycles : List Cycle) (s : Pack) (d : Draft Record) (between : Between p mtu s d) :
    ∃ fates d', List.Forall₂ (Lawful p alloc refusals) cycles fates ∧
      Between p mtu (cycles.foldl (flushCycle p mtu time alloc) s) d' ∧
      d'.whole = d.whole ++ fates.filterMap Fate.records? ∧
      callbacks (cycles.foldl (flushCycle p mtu time alloc) s).effects =
        callbacks s.effects ++ (List.zipWith Fate.callback? cycles fates).reduceOption ∧
      d'.map (shape p) = placeAll Prod.fst p.headerAlignment mtu (d.map (shape p)) (acceptedShapes p alloc cycles) := by
  induction cycles generalizing s d with
  | nil => exact ⟨[], d, .nil, between, by simp, (List.append_nil _).symm, rfl⟩
  | cons cycle cycles ih =>
    obtain ⟨fate, next, lawful, after, whole, called, step⟩ :=
      flushCycle_between p packet time alloc s d cycle between
    obtain ⟨fates, last, rest, done, wholes, callbacks, steps⟩ := ih (flushCycle p mtu time alloc s cycle) next after
    refine ⟨fate :: fates, last, .cons lawful rest, done, ?_, ?_, ?_⟩
    · rw [wholes, whole, List.append_assoc]
      cases fate <;> rfl
    · rw [List.foldl_cons, callbacks, called, List.append_assoc, List.zipWith_cons_cons]
      cases fate.callback? cycle <;> rfl
    · rw [steps, step, ← placeAll_append, ← acceptedShapes_cons]

theorem begin_between (packet : mtu ≠ 0) (rba : Nat) :
    Between p mtu (Pack.begin p mtu rba) Draft.empty := by
  refine ⟨⟨?_, ?_, rfl, rfl, by simp [Draft.empty]⟩, Draft.Fits.empty, rfl⟩
  · simp [Pack.begin, packet, Draft.empty, Draft.items, promised, stream]
  · simp [Pack.begin, packet, headerSize, Draft.empty, stream]

theorem Between.finish (packet : mtu ≠ 0) (between : Between p mtu s d) :
    sends (s.finish p mtu).effects = (flagged false d.ship.shipped).map (Packets.packet p) ∧
      callbacks (s.finish p mtu).effects = callbacks s.effects := by
  have prior := between.holds.cptr_iff p
  have items : d.items = d.groups.flatten := by rw [Draft.items, between.closed, List.append_nil]
  have full : s.buffer.length = s.cptr := by
    rw [between.holds.buffer_eq, List.length_append, length_packetHeader, items, between.holds.cptr_eq]
  simp only [Pack.finish, if_neg packet, full]
  by_cases some : s.cptr ≠ p.headerAlignment
  · have groups := prior.mp some
    rw [if_pos some]
    simp only [Pack.emit, sends_append, callbacks_append, toggle_effects, Draft.ship, groups, Bool.false_eq_true,
      if_false, flagged_append, Bool.false_or, List.map_append, between.holds.sends_eq, between.holds.toggle p, items]
    exact ⟨by simp [sends, Packets.packet], by simp [callbacks]⟩
  · have none : d.groups.isEmpty = true := by
      by_contra other
      exact some (prior.mpr (Bool.eq_false_of_not_eq_true other))
    rw [if_neg some]
    simp only [Pack.emit, sends_append, callbacks_append, Draft.ship, none, if_true, between.holds.sends_eq]
    exact ⟨by simp [sends], by simp [callbacks]⟩

/-- Packetisation is atomic: every packet holds whole cycles in the order they were closed, and
a cycle in no packet was reported to its callback, with an error unless it was empty. -/
theorem ebDeviceFlush_packetised (mtu time rba : Nat) (alloc : Nat → Bool) (ready : List Cycle)
    (packet : mtu ≠ 0) :
    Packetised p mtu alloc refusals ready.reverse (ebDeviceFlush p mtu time alloc rba ready).effects := by
  obtain ⟨fates, d, lawful, between, whole, called, _⟩ := flushCycles_between p packet time alloc ready.reverse
    (Pack.begin p mtu rba) Draft.empty (begin_between p packet rba)
  obtain ⟨sent, calls⟩ := between.finish p packet
  have fits := between.fits.ship between.holds.solid
  refine ⟨fates, flagged false d.ship.shipped, lawful, sent, ?_, ?_, ?_⟩
  · rw [flagged_groups]
    have shipped : d.ship.whole = (d.ship.shipped.map Parcel.groups).flatten := by
      rw [Draft.whole, Draft.ship_groups, List.append_nil]
    rw [← shipped, Draft.ship_whole, whole]
    rfl
  · rw [ebDeviceFlush, sent]
    intro bytes member
    obtain ⟨content, inside, rfl⟩ := List.mem_map.mp member
    have listed : content.2 ∈ d.ship.shipped.map Parcel.groups := by
      rw [← flagged_groups false]
      exact List.mem_map_of_mem inside
    obtain ⟨parcel, member, same⟩ := List.mem_map.mp listed
    rw [Packets.packet, List.length_append, length_packetHeader, length_stream, ← same]
    exact fits.shipped parcel member
  · rw [ebDeviceFlush, calls, called]
    rfl

/-- Two cycles on a port that one packet can take. -/
theorem ebDeviceFlush_packetised_pair :
    Packetised Port.wishbone32 1472 (fun _ => true) refusals
      [⟨0, .live [⟨0x100, 7, .write, false, false, true, 4⟩]⟩, ⟨1, .dead⟩]
      (ebDeviceFlush Port.wishbone32 1472 0 (fun _ => true) 0x8000
        [⟨1, .dead⟩, ⟨0, .live [⟨0x100, 7, .write, false, false, true, 4⟩]⟩]).effects :=
  ebDeviceFlush_packetised Port.wishbone32 1472 0 0x8000 (fun _ => true)
    [⟨1, .dead⟩, ⟨0, .live [⟨0x100, 7, .write, false, false, true, 4⟩]⟩] (by decide)

/-- A cycle without operations is in no packet, and its callback still reports success. -/
theorem ebDeviceFlush_empty_cycle :
    ¬Packetised Port.wishbone32 1472 (fun _ => true) (fun _ status => status ≠ .ok) [⟨0, .live []⟩]
      (ebDeviceFlush Port.wishbone32 1472 0 (fun _ => true) 0x8000 [⟨0, .live []⟩]).effects := by
  intro ⟨fates, contents, lawful, _, _, _, called⟩
  have effects : (ebDeviceFlush Port.wishbone32 1472 0 (fun _ => true) 0x8000 [⟨0, .live []⟩]).effects =
      [.sendBuffer true, .callback 0 [] .ok, .sendBuffer false] := by decide
  rw [effects] at called
  cases lawful with
  | @cons _ fate _ _ first rest =>
    cases rest
    cases fate with
    | sent records =>
      obtain ⟨_, operations, rba, screened, _⟩ := first
      cases screened
    | refused status =>
      apply first
      have listed : [(0, Status.ok)] = [(0, status)] := called
      simpa using listed.symm

end

end BelProject.Etherbone.Packets
