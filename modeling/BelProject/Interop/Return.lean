import BelProject.Interop.Service

/-! The reply of the slave core, executed where the cycle came from. The empty records in it
do nothing; the record behind them is the one the library would have sent itself. -/

namespace BelProject.Interop.Return
open BelProject.Library Etherbone Width Operations Wire Format Requests Agreement Answers Exchanges
open RoundTrip (Returned)
open Words Service Packets
open Deliver (endsCycle)
open Execute (Lanes decodeSelect execRecord execRecords execWritePart execReadPart replyRecord Session Bus)
open SlaveCore Headers Fsm Requests Core Grammar Replies

theorem recordOf_padding : recordOf padding = ⟨0, 0, 0, [], 0, []⟩ := by decide

theorem flagsOf_reply (r : Record) : flagsOf (fReplyRec (hdrOf r)) =
    (r.flags &&& recordCyc) ||| (if r.has recordBca then recordWca else 0) |||
      (if r.has recordRff then recordWff else 0) := by
  obtain ⟨b7, b6, b5, b4, b3, b2, b1, b0⟩ := flagsOf_bits (fReplyRec (hdrOf r))
  have bits : ∀ flags : Byte,
      let answered := (flags &&& recordCyc) ||| (if flags &&& recordBca != 0 then recordWca else 0) |||
        (if flags &&& recordRff != 0 then recordWff else 0)
      answered.toBitVec.getLsbD 7 = false ∧ answered.toBitVec.getLsbD 6 = false ∧ answered.toBitVec.getLsbD 5 = false ∧
        answered.toBitVec.getLsbD 4 = false ∧ answered.toBitVec.getLsbD 3 = flags.toBitVec.getLsbD 3 ∧
        answered.toBitVec.getLsbD 2 = flags.toBitVec.getLsbD 7 ∧ answered.toBitVec.getLsbD 1 =
          flags.toBitVec.getLsbD 5 ∧
        answered.toBitVec.getLsbD 0 = false := forall_byte (by decide)
  obtain ⟨a7, a6, a5, a4, a3, a2, a1, a0⟩ := bits r.flags
  apply flags_ext
  intro i small
  interval_cases i
  · exact b0.trans a0.symm
  · exact b1.trans a1.symm
  · exact b2.trans a2.symm
  · exact b3.trans a3.symm
  · exact b4.trans a4.symm
  · exact b5.trans a5.symm
  · exact b6.trans a6.symm
  · exact b7.trans a7.symm

section
variable {p : Port} {check : Bool} {maxops ops : Nat} {operations : List Operation} {batch : Batch}
  {batches : List Batch}

theorem recordOf_reply {r : Record} (fits : r.Fits p) (alignment : p.alignment = 4) (some : r.reads ≠ [])
    (results : List Word) (length : results.length = (coreRequest r).reads.length) :
    recordOf (replyTo (coreRequest r) results length) = replyRecord r (results.map BitVec.toNat) := by
  have same := coreRequest_eq fits
  have ret : (coreRequest r).baseRet.toNat = r.bra := by
    have small := fits.bra_lt
    rw [alignment] at small
    rw [same]
    exact (BitVec.toNat_ofNat _ _).trans (Nat.mod_eq_of_lt small)
  have reads : (coreRequest r).reads.isEmpty = false := by
    rw [same]
    exact List.isEmpty_eq_false_iff.mpr (mt List.map_eq_nil_iff.mp some)
  have hdr : (coreRequest r).hdr = hdrOf r := by rw [same]; rfl
  simp only [recordOf, replyTo, reads, Bool.false_eq_true, if_false, ret, hdr, flagsOf_reply, replyRecord]
  rfl

variable {τ : Type}

theorem execRecord_empty (home : Bus τ) (m : Session τ) (closed : m.cycleOpen = false) {r : Record}
    (writes : r.writes = []) (reads : r.reads = []) : execRecord p home m r = (m, []) := by
  have written : execWritePart p home m r = m := by
    simp only [execWritePart, writes, Execute.execWrites]
  have read : execReadPart p home m r = (m, []) := by
    rw [execReadPart, reads, List.isEmpty_nil, if_pos rfl]
  simp only [execRecord, written, read, closed, Bool.false_and, Bool.false_eq_true, if_false, List.append_nil]

theorem execRecords_padding (home : Bus τ) (m : Session τ) (closed : m.cycleOpen = false) (count : Nat)
    (rest : List Record) :
    execRecords p home m ((List.replicate count padding).map recordOf ++ rest) = execRecords p home m rest := by
  induction count with
  | zero => rfl
  | succ count ih =>
    rw [List.replicate_succ, List.map_cons, List.cons_append, recordOf_padding]
    have empty := execRecord_empty (p := p) home m closed (r := ⟨0, 0, 0, [], 0, []⟩) rfl rfl
    simp only [execRecords, empty, List.nil_append]
    exact ih

theorem recordOf_fits (alignment : p.alignment = 4) (r : Request) : (recordOf r).Fits p := by
  have word : ∀ value : Word, value.toNat < 256 ^ p.alignment := by
    intro value
    rw [alignment]
    exact value.isLt
  have count : ∀ (cnt : BitVec 8) (values : List Word), cnt.toNat = values.length →
    (values.map BitVec.toNat).length ≤ 255 := by
    intro cnt values length
    have := cnt.isLt
    rw [List.length_map]
    omega
  have values : ∀ values : List Word, ∀ value ∈ values.map BitVec.toNat, value < 256 ^ p.alignment := by
    intro values value member
    obtain ⟨value, _, rfl⟩ := List.mem_map.mp member
    exact word value
  exact ⟨count _ _ r.wrCnt, count _ _ r.rdCnt, word _, values _, word _, values _⟩

theorem request_returned (data : p.data = 4) (addr : p.addr = 4) (home : Bus τ) (m : Session τ)
    (closed : m.cycleOpen = false) (rba : Nat) (small : rba < 2 ^ 16) (accepted : ∀ op ∈ operations, Accepted p op)
    (spec : batch.Spec p check maxops ops operations) {entries : List (Token × Word)}
    (cells : entryCells entries = (coreRequest (batch.toRecord p rba)).cells.map Prod.snd)
    (length : (readWords entries).length = (coreRequest (batch.toRecord p rba)).reads.length) :
    execRecords p home m ((List.replicate (pads (coreRequest (batch.toRecord p rba))) padding ++
        [replyTo (coreRequest (batch.toRecord p rba)) (readWords entries) length]).map recordOf) =
      ((Requests.runRequests home m (((served p (items batch) entries).filterMap (reply p rba)).map
        writeBack)).1, []) := by
  have fits := toRecord_fits rba small accepted spec
  obtain ⟨alignment, _, _⟩ := layout32 data addr
  have same := coreRequest_eq fits
  have demanded := accesses_request data rba small accepted spec
  rw [← cells] at demanded
  have marked : Marked (entryCells entries) := by
    rw [cells]
    exact marked_request _
  have back := served_replies (fun word => wordBack p rba batch word.toNat) demanded marked
    fun item member entry tag => reply_accessOf accepted spec member entry tag
  rw [back, List.map_append, execRecords_padding home m closed, List.map_singleton]
  by_cases none : (batch.toRecord p rba).reads = []
  · have quiet : readWords entries = [] := by
      apply List.eq_nil_of_length_eq_zero
      rw [length, same]
      simp only [requestOf, none, List.map_nil, List.length_nil]
    have empty := execRecord_empty (p := p) home m closed
      (r := recordOf (replyTo (coreRequest (batch.toRecord p rba)) (readWords entries) length))
      (by simp only [recordOf, replyTo, quiet, List.map_nil]) rfl
    simp only [execRecords, empty, List.append_nil]
    rw [quiet]
    rfl
  · have some : askedItems batch ≠ [] := by
      intro nothing
      apply none
      obtain ⟨noReads, noStatus⟩ := List.append_eq_nil_iff.mp nothing
      have plain : batch.inserted = false := by
        by_contra set
        rw [if_pos (Bool.eq_true_of_not_eq_false set)] at noStatus
        cases noStatus
      rw [toRecord_reads, asked, plain, if_neg (by decide), List.map_eq_nil_iff.mp noReads]
      rfl
    have written := execRecord_words home m closed rba accepted spec some ((readWords entries).map BitVec.toNat)
    rw [List.map_map (g := wordBack p rba batch)] at written
    rw [recordOf_reply fits alignment none]
    simp only [execRecords, written, List.append_nil]
    rfl

/-- The words that left for some items are records that answer their accesses. -/
structure Rendered {τ : Type} (p : Port) (home : Bus τ) (rba : Nat) (items : List Item) (ended : Bool)
    (entries : List (Token × Word)) (replies : List Request) : Prop where
  words_eq : words entries = replies.flatMap recordWords
  asked : accesses (entryCells entries) = items.map (demand p)
  marked : Marked (entryCells entries)
  returned : ∀ low, Returned p home rba low ended (served p items entries) (replies.map recordOf)

theorem Rendered.append {home : Bus τ} {rba : Nat} {first second : List Item} {ended ended' : Bool}
    {before after : List (Token × Word)} {replies replies' : List Request}
    (head : Rendered p home rba first ended before replies) (tail : Rendered p home rba second ended' after replies') :
    Rendered p home rba (first ++ second) ended' (before ++ after) (replies ++ replies') := by
  have joined : entryCells (before ++ after) = entryCells before ++ entryCells after := List.map_append
  have split : served p (first ++ second) (before ++ after) = served p first before ++ served p second after := by
    obtain ⟨same, serves⟩ := served_serves head.asked
    have length : first.length = (accessed before).length := by
      rw [← serves.length_eq, ← congrArg List.length same, List.length_map]
    rw [served, accessed_append]
    exact List.zipWith_append length
  refine ⟨?_, ?_, ?_, fun low => ?_⟩
  · rw [List.flatMap_append, ← head.words_eq, ← tail.words_eq]
    exact List.map_append
  · rw [joined, accesses_append, head.asked, tail.asked, List.map_append]
  · rw [joined]
    exact marked_append.mpr ⟨head.marked, tail.marked⟩
  · rw [List.map_append, split]
    exact (head.returned low).append (tail.returned _)

theorem batch_rendered (data : p.data = 4) (addr : p.addr = 4) (home : Bus τ) (rba : Nat)
    (small : rba < 2 ^ 16) (accepted : ∀ op ∈ operations, Accepted p op)
    (spec : batch.Spec p check maxops ops operations) {entries : List (Token × Word)}
    (cells : entryCells entries = (coreRequest (batch.toRecord p rba)).cells.map Prod.snd) (passed : Passed entries) :
    ∃ replies, Rendered p home rba (items batch) batch.cycleEnd entries replies := by
  obtain ⟨length, same⟩ := request_words (coreRequest (batch.toRecord p rba)) cells passed
  refine ⟨_, same, ?_, ?_, fun low => ⟨?_, ?_, fun m closed => ?_⟩⟩
  · rw [cells]
    exact accesses_request data rba small accepted spec
  · rw [cells]
    exact marked_request _
  · intro r member
    obtain ⟨answer, _, rfl⟩ := List.mem_map.mp member
    exact recordOf_fits (layout32 data addr).1 answer
  · have drop : (flagsOf (fReplyRec (coreRequest (batch.toRecord p rba)).hdr) &&& recordCyc != 0) = batch.cycleEnd := by
      rw [coreRequest_eq (toRecord_fits rba small accepted spec)]
      show (flagsOf (fReplyRec (hdrOf (batch.toRecord p rba))) &&& recordCyc != 0) = _
      obtain ⟨_, _, cyc⟩ := replyRecord_flags (batch.toRecord p rba) []
      rw [flagsOf_reply, ← toRecord_cyc p rba batch]
      exact cyc
    rw [List.map_append, Segments.endsCycle_append]
    exact drop
  · exact request_returned data addr home m closed rba small accepted spec cells length

theorem formats_rendered (data : p.data = 4) (addr : p.addr = 4) (home : Bus τ) (rba : Nat)
    (small : rba < 2 ^ 16) (formats : Formats p check maxops ops operations batches)
    (accepted : ∀ op ∈ operations, Accepted p op) : ∀ entries : List (Token × Word), entryCells entries =
      (((batches.map (Batch.toRecord p rba)).map coreRequest).flatMap Request.cells).map Prod.snd → Passed entries →
      ∃ replies, Rendered p home rba (batches.flatMap items) true entries replies := by
  apply Formats.rule (P := fun _ _ batches => ∀ entries : List (Token × Word), entryCells entries =
    (((batches.map (Batch.toRecord p rba)).map coreRequest).flatMap Request.cells).map Prod.snd → Passed entries →
    ∃ replies, Rendered p home rba (batches.flatMap items) true entries replies) _ _ formats accepted
  · intro ops operations accepted spec ended entries cells passed
    rw [List.map_singleton, List.map_singleton, List.flatMap_singleton] at cells
    rw [List.flatMap_singleton, ← ended]
    exact batch_rendered data addr home rba small accepted spec cells passed
  · intro ops operations batches accepted spec _ rest entries cells passed
    rw [List.map_cons, List.map_cons, List.flatMap_cons, List.map_append] at cells
    obtain ⟨first, later, rfl, head, tail⟩ := entries_append cells
    obtain ⟨passed₁, passed₂⟩ := passed_append passed
    obtain ⟨replies, here⟩ := batch_rendered data addr home rba small accepted spec head passed₁
    obtain ⟨replies', behind⟩ := rest later tail passed₂
    exact ⟨replies ++ replies', here.append behind⟩

end

end BelProject.Interop.Return
