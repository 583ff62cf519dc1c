import BelProject.Tools.FileTransfer

/-! The loops of `eb-put` and `eb-get` and the conditions under which they move exactly the
range they are asked to. -/

namespace BelProject.Tools.FileTransfer
open StateTransition

variable {w : Nat} {j : Job w} {s s' : State w} {p : Nat}

/-! ### Up to some position everything was moved -/

/-- All operations so far are a plan for the bytes below `p`. -/
structure Upto (j : Job w) (s : State w) (p : Nat) : Prop where
  pos : s.pos = BitVec.ofNat w p
  low : j.address.toNat ≤ p
  covered : touched (s.sent ++ s.queued) = List.range' j.address.toNat (p - j.address.toNat)
  aligned : ∀ op ∈ s.sent ++ s.queued, Permitted j op.size ∧ op.size ∣ op.address.toNat
  left : s.left = j.length.toNat - (p - j.address.toNat)

theorem start_upto (j : Job w) : Upto j j.start j.address.toNat where
  pos := by
    rw [BitVec.ofNat_toNat, BitVec.setWidth_eq]
    rfl
  low := le_rfl
  covered := by
    rw [Nat.sub_self]
    rfl
  aligned := fun op listed => absurd listed List.not_mem_nil
  left := by
    rw [Nat.sub_self]
    rfl

section
variable (upto : Upto j s p)
include upto

theorem Upto.pos_toNat (inside : p < 2 ^ w) : s.pos.toNat = p := by
  rw [upto.pos, BitVec.toNat_ofNat, Nat.mod_eq_of_lt inside]

theorem Upto.close {size c : Nat} (permitted : Permitted j size) (multiple : size ∣ p) (inside : p < 2 ^ w)
    (room : p + c * size ≤ 2 ^ w) : Upto j (s.close size c) (p + c * size) := by
  have here := upto.pos_toNat inside
  have low := upto.low
  refine ⟨?_, by omega, ?_, ?_, ?_⟩
  · rw [State.close, upto.pos, BitVec.ofNat_add]
  · have behind : p + c * size - j.address.toNat = p - j.address.toNat + c * size := by omega
    rw [State.close, ← List.append_assoc, touched_append, upto.covered,
      touched_operations s.pos permitted.positive c (by rw [here]; exact room), here, behind, ← List.range'_append_1,
      Nat.add_sub_cancel' low]
  · intro op listed
    rw [State.close, ← List.append_assoc, List.mem_append] at listed
    rcases listed with before | now
    · exact upto.aligned op before
    · exact aligned_operations permitted (by rw [here]; exact multiple) c op now
  · have behind : p + c * size - j.address.toNat = p - j.address.toNat + c * size := by omega
    show s.left - c * size = _
    rw [upto.left, behind, Nat.sub_sub]

theorem Upto.flush : Upto j s.flush p :=
  ⟨upto.pos, upto.low, by rw [State.flush, List.append_nil]; exact upto.covered,
    by rw [State.flush, List.append_nil]; exact upto.aligned, upto.left⟩

theorem Upto.phase (phase : Phase) : Upto j { s with phase := phase } p :=
  ⟨upto.pos, upto.low, upto.covered, upto.aligned, upto.left⟩

theorem Upto.cycle (cycle : Nat) : Upto j { s with cycle := cycle } p :=
  ⟨upto.pos, upto.low, upto.covered, upto.aligned, upto.left⟩

theorem Upto.counted : Upto j (counted j s) p := by
  rw [FileTransfer.counted]
  split_ifs with full
  · exact upto.flush.cycle 0
  · exact upto.cycle _

end

theorem Upto.none (upto : Upto j s j.address.toNat) : s.sent = [] ∧ s.queued = [] := by
  have covered := upto.covered
  rw [Nat.sub_self] at covered
  exact List.append_eq_nil_iff.mp (touched_nil upto.aligned covered)

theorem Upto.sent_length (upto : Upto j s p) (sent : s.queued = []) :
    (touched s.sent).length = p - j.address.toNat := by
  have covered := upto.covered
  rw [sent, List.append_nil] at covered
  rw [covered, List.length_range']

theorem Upto.plan (upto : Upto j s (j.address.toNat + j.length.toNat)) (sent : s.queued = []) : Plan j s.sent := by
  obtain ⟨_, _, covered, aligned, _⟩ := upto
  rw [sent, List.append_nil] at covered aligned
  rw [Nat.add_sub_cancel_left] at covered
  exact ⟨covered, aligned⟩

theorem transfer_enough {size count : Nat} (next : State w → State w) (enough : j.tool = .put → count * size ≤ s.left) :
    transfer j s size count next = next (s.close size count) := by
  rw [transfer, if_neg]
  rintro ⟨put, short⟩
  exact absurd (enough put) (Nat.not_le_of_lt short)

/-! ### The loops -/

theorem head_turn (phase : s.phase = .head) (ragged : ¬j.bulk ∣ s.pos.toNat) :
    step j s = some (transfer j s j.edge 1 id) := by
  rw [step, phase]
  exact if_pos ((head_iff j s.pos).mpr ragged)

theorem head_end (phase : s.phase = .head) (aligned : j.bulk ∣ s.pos.toNat) :
    step j s = some { s.flush with phase := .bulk } := by
  rw [step, phase]
  exact if_neg fun ragged => (head_iff j s.pos).mp ragged aligned

theorem head_reaches (upto : Upto j s p) (phase : s.phase = .head) (multiple : j.edge ∣ p) (below : p ≤ j.boundary)
    (enough : j.tool = .put → j.boundary ≤ j.address.toNat + j.length.toNat) :
    ∃ s', Reaches (step j) s s' ∧ s'.phase = .bulk ∧ Upto j s' j.boundary ∧ s'.queued = [] ∧ s'.cycle = s.cycle := by
  obtain ⟨turns, distance⟩ := Nat.dvd_sub ((edge_dvd_bulk j).trans (bulk_dvd_boundary j)) multiple
  have space := boundary_space j
  induction turns generalizing s p with
  | zero =>
    have here : p = j.boundary := by omega
    subst here
    have aligned : j.bulk ∣ s.pos.toNat := by
      rw [upto.pos, BitVec.toNat_ofNat, Nat.dvd_mod_iff (bulk_permitted j).dvd_space]
      exact bulk_dvd_boundary j
    exact ⟨_, .single (head_end phase aligned), rfl, upto.flush.phase .bulk, rfl, rfl⟩
  | succ turns ih =>
    have positive := (edge_permitted j).positive
    rw [Nat.mul_succ] at distance
    have inside : p < j.boundary := by omega
    have ragged : ¬j.bulk ∣ s.pos.toNat := by
      rw [upto.pos_toNat (by omega)]
      exact boundary_first j upto.low inside
    have turn := head_turn phase ragged
    rw [transfer_enough id fun put => by rw [upto.left]; have := enough put; have := upto.low; omega] at turn
    have next := upto.close (c := 1) (edge_permitted j) multiple (by omega) (by omega)
    rw [Nat.one_mul] at next
    obtain ⟨s', reaches, rest⟩ := ih next phase (Nat.dvd_add_self_right.mpr multiple) (by omega) (by omega)
    exact ⟨s', .head turn reaches, rest⟩

theorem head_fails (put : j.tool = .put) (phase : s.phase = .head) (pos : s.pos = BitVec.ofNat w p)
    (ragged : ∀ k, k * j.edge ≤ s.left → ¬j.bulk ∣ p + k * j.edge) :
    ∃ s', Reaches (step j) s s' ∧ step j s' = none ∧ s'.sent = s.sent := by
  have positive := (edge_permitted j).positive
  induction left : s.left using Nat.strongRecOn generalizing s p with
  | ind left ih =>
    have here : ¬j.bulk ∣ s.pos.toNat := by
      rw [pos, BitVec.toNat_ofNat, Nat.dvd_mod_iff (bulk_permitted j).dvd_space]
      have first := ragged 0 (by omega)
      rw [Nat.zero_mul] at first
      exact first
    have turn := head_turn phase here
    by_cases short : Short j s (1 * j.edge)
    · rw [transfer, if_pos short] at turn
      exact ⟨_, .single turn, rfl, rfl⟩
    · have enough : 1 * j.edge ≤ s.left := Nat.le_of_not_lt fun less => short ⟨put, less⟩
      rw [transfer, if_neg short] at turn
      have after : (s.close j.edge 1).left = s.left - 1 * j.edge := rfl
      obtain ⟨s', reaches, rest⟩ :=
        ih (s.left - 1 * j.edge) (by omega) (s := s.close j.edge 1) (p := p + 1 * j.edge) phase
        (by rw [State.close, pos, BitVec.ofNat_add]) (fun k few => by
          have further := ragged (k + 1) (by rw [Nat.add_mul]; omega)
          rw [Nat.add_mul] at further
          rw [Nat.add_assoc, Nat.add_comm (1 * j.edge)]
          exact further) after
      exact ⟨s', .head turn reaches, rest⟩

/-- Where the bulk loop stops when the end did not wrap. -/
def stop (j : Job w) : Nat := j.address.toNat + j.length.toNat - (j.address.toNat + j.length.toNat) % j.bulk

theorem endAddress_toNat (inside : j.address.toNat + j.length.toNat < 2 ^ w) :
    j.endAddress.toNat = j.address.toNat + j.length.toNat := by
  rw [Job.endAddress, BitVec.toNat_add, Nat.mod_eq_of_lt inside]

theorem stop_toNat (inside : j.address.toNat + j.length.toNat < 2 ^ w) : j.endBulk.toNat = stop j := by
  rw [endBulk_toNat, endAddress_toNat inside, stop]

theorem stop_le (j : Job w) : stop j ≤ j.address.toNat + j.length.toNat := Nat.sub_le _ _

theorem bulk_dvd_stop (j : Job w) : j.bulk ∣ stop j := Nat.dvd_sub_mod _

theorem batches_succ (j : Job w) {bytes : Nat} (some : 0 < bytes / j.bulk) :
    j.batches bytes = j.batches (bytes - min (bytes / j.bulk) operationsPerCycle * j.bulk) + 1 := by
  have fewer : min (bytes / j.bulk) operationsPerCycle ≤ bytes / j.bulk := Nat.min_le_left _ _
  have rest : (bytes - min (bytes / j.bulk) operationsPerCycle * j.bulk) / j.bulk =
      bytes / j.bulk - min (bytes / j.bulk) operationsPerCycle := by
    rw [Nat.mul_comm, Nat.sub_mul_div]
  rw [Job.batches, Job.batches, rest]
  simp only [operationsPerCycle]
  omega

section
variable (inside : j.address.toNat + j.length.toNat < 2 ^ w)
include inside

theorem bulk_turn (upto : Upto j s p) (phase : s.phase = .bulk) (aligned : j.bulk ∣ p) (below : p < stop j) :
    0 < (stop j - p) / j.bulk ∧ p + min ((stop j - p) / j.bulk) operationsPerCycle * j.bulk ≤ stop j ∧
      step j s = some (counted j (s.close j.bulk (min ((stop j - p) / j.bulk) operationsPerCycle))) ∧
        Upto j (s.close j.bulk (min ((stop j - p) / j.bulk) operationsPerCycle))
          (p + min ((stop j - p) / j.bulk) operationsPerCycle * j.bulk) := by
  have positive := (bulk_permitted j).positive
  have low := upto.low
  have high := stop_le j
  have here := upto.pos_toNat (by omega)
  have distance : (j.endBulk - s.pos).toNat = stop j - p := by
    rw [BitVec.toNat_sub_of_le (by rw [BitVec.le_def, here, stop_toNat inside]; omega), stop_toNat inside, here]
  have some : 0 < (stop j - p) / j.bulk :=
    Nat.div_pos (Nat.le_of_dvd (by omega) (Nat.dvd_sub (bulk_dvd_stop j) aligned)) positive
  have room : min ((stop j - p) / j.bulk) operationsPerCycle * j.bulk ≤ stop j - p :=
    (Nat.mul_le_mul_right _ (Nat.min_le_left _ _)).trans (Nat.div_mul_le_self _ _)
  have count : chunk j s = min ((stop j - p) / j.bulk) operationsPerCycle := by rw [chunk, distance]
  have before : s.pos < j.endBulk := by
    rw [BitVec.lt_def, here, stop_toNat inside]
    exact below
  have turn : step j s = Option.some (transfer j s j.bulk (chunk j s) (counted j)) := by
    rw [step, phase]
    exact if_pos before
  rw [count, transfer_enough (counted j) fun _ => by rw [upto.left]; omega] at turn
  exact ⟨some, by omega, turn, upto.close (bulk_permitted j) aligned (by omega) (by omega)⟩

theorem bulk_reaches (upto : Upto j s p) (phase : s.phase = .bulk) (aligned : j.bulk ∣ p) (below : p ≤ stop j) :
    ∃ s', Reaches (step j) s s' ∧ s'.phase = .tail ∧ Upto j s' (stop j) ∧
      (s.sent = [] → s.cycle + j.batches (stop j - p) < j.cycles → s'.sent = []) := by
  induction distance : stop j - p using Nat.strongRecOn generalizing s p with
  | ind distance ih =>
    subst distance
    rcases Nat.eq_or_lt_of_le below with here | before
    · subst here
      have bound := stop_le j
      have beyond : ¬s.pos < j.endBulk := by
        rw [BitVec.lt_def, upto.pos_toNat (by omega), stop_toNat inside]
        exact lt_irrefl _
      have turn : step j s = some { s with phase := .tail } := by
        rw [step, phase]
        exact if_neg beyond
      exact ⟨_, .single turn, rfl, upto.phase .tail, fun none _ => none⟩
    · obtain ⟨some, room, turn, next⟩ := bulk_turn inside upto phase aligned before
      have positive := (bulk_permitted j).positive
      have cycles := batches_succ j some
      have moved : 0 < min ((stop j - p) / j.bulk) operationsPerCycle * j.bulk :=
        Nat.mul_pos (Nat.lt_min.mpr ⟨some, by decide⟩) positive
      generalize amount : min ((stop j - p) / j.bulk) operationsPerCycle = count at *
      have state : (counted j (s.close j.bulk count)).phase = .bulk := by
        rw [counted]
        split_ifs with full
        · exact phase
        · exact phase
      obtain ⟨s', reaches, tail, upto', unsent⟩ := ih (stop j - (p + count * j.bulk)) (by omega) next.counted state
        (Nat.dvd_add aligned (Nat.dvd_mul_left _ _)) room rfl
      refine ⟨s', .head turn reaches, tail, upto', ?_⟩
      intro none few
      rw [cycles] at few
      have later : s.cycle + 1 ≠ j.cycles := by omega
      apply unsent
      · rw [counted, State.close, if_neg later]
        exact none
      · rw [counted, State.close, if_neg later, ← Nat.sub_sub]
        show s.cycle + 1 + _ < _
        omega

theorem bulk_sends (upto : Upto j s p) (phase : s.phase = .bulk)
    (aligned : j.bulk ∣ p) (below : p ≤ stop j) (early : s.cycle < j.cycles)
    (many : j.cycles ≤ s.cycle + j.batches (stop j - p)) : ∃ s', Reaches (step j) s s' ∧ s'.sent ≠ [] := by
  induction distance : stop j - p using Nat.strongRecOn generalizing s p with
  | ind distance ih =>
    subst distance
    rcases Nat.eq_or_lt_of_le below with here | before
    · subst here
      have zero : j.batches (stop j - stop j) = 0 := by
        rw [Nat.sub_self, Job.batches, Nat.zero_div]
        rfl
      omega
    · obtain ⟨some, room, turn, next⟩ := bulk_turn inside upto phase aligned before
      have positive := (bulk_permitted j).positive
      have cycles := batches_succ j some
      have amount : 0 < min ((stop j - p) / j.bulk) operationsPerCycle := Nat.lt_min.mpr ⟨some, by decide⟩
      generalize min ((stop j - p) / j.bulk) operationsPerCycle = count at *
      have moved : 0 < count * j.bulk := Nat.mul_pos amount positive
      by_cases full : s.cycle + 1 = j.cycles
      · refine ⟨_, .single turn, ?_⟩
        rw [counted, if_pos (show (s.close j.bulk count).cycle + 1 = j.cycles from full)]
        intro empty
        have closed := (List.append_eq_nil_iff.mp (List.append_eq_nil_iff.mp empty).2).2
        rw [operations, List.map_eq_nil_iff, List.range_eq_nil] at closed
        omega
      · have after : counted j (s.close j.bulk count) =
          { s.close j.bulk count with cycle := s.cycle + 1 } := if_neg full
        rw [after] at turn
        obtain ⟨s', reaches, sent⟩ := ih (stop j - (p + count * j.bulk)) (by omega) (next.cycle (s.cycle + 1)) phase
          (Nat.dvd_add aligned (Nat.dvd_mul_left _ _)) room (show s.cycle + 1 < j.cycles by omega)
          (by
            rw [cycles, Nat.sub_sub] at many
            show j.cycles ≤ s.cycle + 1 + _
            omega) rfl
        exact ⟨s', .head turn reaches, sent⟩

end

theorem tail_turn (phase : s.phase = .tail) (before : s.pos < j.endAddress) :
    step j s = some (transfer j s j.edge 1 id) := by
  rw [step, phase]
  exact if_pos before

theorem tail_end (phase : s.phase = .tail) (beyond : ¬s.pos < j.endAddress) :
    step j s = some { s.flush with phase := .done } := by
  rw [step, phase]
  exact if_neg beyond

theorem tail_reaches (inside : j.address.toNat + j.length.toNat < 2 ^ w) (upto : Upto j s p) (phase : s.phase = .tail)
    (multiple : j.edge ∣ p) (below : p ≤ j.address.toNat + j.length.toNat)
    (whole : j.edge ∣ j.address.toNat + j.length.toNat) :
    ∃ s', Reaches (step j) s s' ∧ step j s' = none ∧ Plan j s'.sent := by
  obtain ⟨turns, distance⟩ := Nat.dvd_sub whole multiple
  induction turns generalizing s p with
  | zero =>
    have here : p = j.address.toNat + j.length.toNat := by omega
    subst here
    have beyond : ¬s.pos < j.endAddress := by
      rw [BitVec.lt_def, upto.pos_toNat inside, endAddress_toNat inside]
      exact lt_irrefl _
    exact ⟨_, .single (tail_end phase beyond), rfl, upto.flush.plan rfl⟩
  | succ turns ih =>
    have positive := (edge_permitted j).positive
    have low := upto.low
    rw [Nat.mul_succ] at distance
    have before : s.pos < j.endAddress := by
      rw [BitVec.lt_def, upto.pos_toNat (by omega), endAddress_toNat inside]
      omega
    have turn := tail_turn phase before
    rw [transfer_enough id fun _ => by rw [upto.left]; omega] at turn
    have next := upto.close (c := 1) (edge_permitted j) multiple (by omega) (by omega)
    rw [Nat.one_mul] at next
    obtain ⟨s', reaches, rest⟩ := ih next phase (Nat.dvd_add_self_right.mpr multiple) (by omega) (by omega)
    exact ⟨s', .head turn reaches, rest⟩

theorem tail_fails (put : j.tool = .put) (inside : j.address.toNat + j.length.toNat < 2 ^ w) (upto : Upto j s p)
    (phase : s.phase = .tail) (multiple : j.edge ∣ p) (below : p ≤ j.address.toNat + j.length.toNat)
    (broken : ¬j.edge ∣ j.address.toNat + j.length.toNat) :
    ∃ s', Reaches (step j) s s' ∧ step j s' = none ∧ s'.sent = s.sent := by
  have positive := (edge_permitted j).positive
  induction distance : j.address.toNat + j.length.toNat - p using Nat.strongRecOn generalizing s p with
  | ind distance ih =>
    subst distance
    have low := upto.low
    have short : p < j.address.toNat + j.length.toNat := by
      rcases Nat.eq_or_lt_of_le below with here | before
      · rw [here] at multiple
        exact absurd multiple broken
      · exact before
    have before : s.pos < j.endAddress := by
      rw [BitVec.lt_def, upto.pos_toNat (by omega), endAddress_toNat inside]
      exact short
    have turn := tail_turn phase before
    by_cases ended : Short j s (1 * j.edge)
    · rw [transfer, if_pos ended] at turn
      exact ⟨_, .single turn, rfl, rfl⟩
    · have enough : 1 * j.edge ≤ s.left := Nat.le_of_not_lt fun less => ended ⟨put, less⟩
      rw [transfer, if_neg ended] at turn
      rw [upto.left] at enough
      have next := upto.close (c := 1) (edge_permitted j) multiple (by omega) (by omega)
      obtain ⟨s', reaches, rest⟩ := ih _ (by omega) next phase
        (Nat.dvd_add multiple (Nat.dvd_mul_left _ _)) (by omega) rfl
      exact ⟨s', .head turn reaches, rest⟩

/-! ### Whole runs -/

theorem transfer_sent (s : State w) (size count : Nat) {next : State w → State w}
    (grows : ∀ t, t.sent <+: (next t).sent) :
    s.sent <+: (transfer j s size count next).sent := by
  rw [transfer]
  split_ifs with short
  · exact List.prefix_rfl
  · exact grows (s.close size count)

theorem counted_sent (t : State w) : t.sent <+: (counted j t).sent := by
  rw [counted]
  split_ifs with full
  · exact List.prefix_append _ _
  · exact List.prefix_rfl

theorem step_sent (moved : step j s = some s') : s.sent <+: s'.sent := by
  rw [step] at moved
  cases phase : s.phase with
  | head =>
    simp only [phase] at moved
    split_ifs at moved with ragged
    · obtain rfl := Option.some.inj moved
      exact transfer_sent s _ _ fun t => List.prefix_rfl
    · obtain rfl := Option.some.inj moved
      exact List.prefix_append _ _
  | bulk =>
    simp only [phase] at moved
    split_ifs at moved with before
    · obtain rfl := Option.some.inj moved
      exact transfer_sent s _ _ counted_sent
    · obtain rfl := Option.some.inj moved
      exact List.prefix_rfl
  | tail =>
    simp only [phase] at moved
    split_ifs at moved with before
    · obtain rfl := Option.some.inj moved
      exact transfer_sent s _ _ fun t => List.prefix_rfl
    · obtain rfl := Option.some.inj moved
      exact List.prefix_append _ _
  | done =>
    simp only [phase] at moved
    cases moved
  | failed =>
    simp only [phase] at moved
    cases moved

theorem reaches_sent (reaches : Reaches (step j) s s') : s.sent <+: s'.sent := by
  induction reaches with
  | refl => exact List.prefix_rfl
  | tail _ moved ih => exact ih.trans (step_sent moved)

variable {final : State w}

theorem ended_from (ended : final ∈ eval (step j) j.start) (reaches : Reaches (step j) j.start s) :
    Reaches (step j) s final := by
  rw [reaches_eval reaches] at ended
  exact (mem_eval.mp ended).1

theorem ended_unique (ended : final ∈ eval (step j) j.start) (reaches : Reaches (step j) j.start s)
    (stops : step j s = none) : final = s :=
  Part.mem_unique ended (mem_eval.mpr ⟨reaches, stops⟩)

theorem get_stuck (get : j.tool = .get) (between : ¬j.edge ∣ j.address.toNat) (reaches : Reaches (step j) j.start s) :
    s.phase = .head ∧ ¬j.edge ∣ s.pos.toNat := by
  induction reaches with
  | refl => exact ⟨rfl, between⟩
  | @tail s s' _ moved ih =>
    obtain ⟨phase, apart⟩ := ih
    have ragged : ¬j.bulk ∣ s.pos.toNat := fun aligned => apart ((edge_dvd_bulk j).trans aligned)
    rw [head_turn phase ragged, transfer_enough id fun put => absurd put (by rw [get]; decide)] at moved
    obtain rfl := Option.some.inj moved
    refine ⟨phase, ?_⟩
    show ¬j.edge ∣ (s.pos + BitVec.ofNat w (1 * j.edge)).toNat
    rw [BitVec.toNat_add, BitVec.toNat_ofNat, Nat.dvd_mod_iff (edge_dvd_space j),
      Nat.mod_eq_of_lt (by rw [Nat.one_mul]; exact (edge_permitted j).lt_space), Nat.one_mul, Nat.dvd_add_self_right]
    exact apart

/-- Without a file the tool does not give up, and at its end it has sent what it queued. -/
structure Open (j : Job w) (s : State w) : Prop where
  issued : s.sent ++ s.queued = [] → s.pos = j.address
  alive : s.phase ≠ .failed
  done : s.phase = .done → s.queued = [] ∧ ¬s.pos < j.endAddress

theorem close_issued (s : State w) (size count : Nat) (issued : s.sent ++ s.queued = [] → s.pos = j.address) :
    (s.close size count).sent ++ (s.close size count).queued = [] → (s.close size count).pos = j.address := by
  intro none
  rw [State.close, ← List.append_assoc, List.append_eq_nil_iff, operations, List.map_eq_nil_iff,
    List.range_eq_nil] at none
  obtain ⟨before, zero⟩ := none
  rw [State.close, zero, Nat.zero_mul]
  exact (BitVec.add_zero _).trans (issued before)

theorem Open.kept (get : j.tool = .get) (state : Open j s) (moved : step j s = some s') : Open j s' := by
  have enough : ∀ {bytes}, j.tool = .put → bytes ≤ s.left := fun put => absurd put (by rw [get]; decide)
  rw [step] at moved
  cases phase : s.phase with
  | head =>
    simp only [phase] at moved
    split_ifs at moved with ragged
    · rw [transfer_enough id enough] at moved
      obtain rfl := Option.some.inj moved
      exact ⟨close_issued s _ _ state.issued, fun failed => (nomatch phase.symm.trans failed),
        fun done => (nomatch phase.symm.trans done)⟩
    · obtain rfl := Option.some.inj moved
      exact ⟨fun none => state.issued (List.append_nil (s.sent ++ s.queued) ▸ none), Phase.noConfusion,
        fun done => (nomatch done)⟩
  | bulk =>
    simp only [phase] at moved
    split_ifs at moved with before
    · rw [transfer_enough (counted j) enough] at moved
      obtain rfl := Option.some.inj moved
      rw [counted]
      split_ifs with full
      · exact ⟨fun none => close_issued s _ _ state.issued (List.append_nil (_ ++ _) ▸ none),
          fun failed => (nomatch phase.symm.trans failed), fun done => (nomatch phase.symm.trans done)⟩
      · exact ⟨close_issued s _ _ state.issued, fun failed => (nomatch phase.symm.trans failed),
          fun done => (nomatch phase.symm.trans done)⟩
    · obtain rfl := Option.some.inj moved
      exact ⟨state.issued, Phase.noConfusion, fun done => (nomatch done)⟩
  | tail =>
    simp only [phase] at moved
    split_ifs at moved with before
    · rw [transfer_enough id enough] at moved
      obtain rfl := Option.some.inj moved
      exact ⟨close_issued s _ _ state.issued, fun failed => (nomatch phase.symm.trans failed),
        fun done => (nomatch phase.symm.trans done)⟩
    · obtain rfl := Option.some.inj moved
      exact ⟨fun none => state.issued (List.append_nil (s.sent ++ s.queued) ▸ none), Phase.noConfusion,
        fun _ => ⟨rfl, before⟩⟩
  | done =>
    simp only [phase] at moved
    cases moved
  | failed =>
    simp only [phase] at moved
    cases moved

theorem open_reached (get : j.tool = .get) (reaches : Reaches (step j) j.start s) : Open j s := by
  induction reaches with
  | refl => exact ⟨fun _ => rfl, fun failed => (nomatch failed), fun done => (nomatch done)⟩
  | tail _ moved ih => exact ih.kept get moved

theorem get_sends (get : j.tool = .get) (inside : j.address.toNat + j.length.toNat < 2 ^ w) (some : 0 < j.length.toNat)
    (ended : final ∈ eval (step j) j.start) : final.sent ≠ [] := by
  obtain ⟨reaches, stops⟩ := mem_eval.mp ended
  have state := open_reached get reaches
  have done : final.phase = .done := by
    cases phase : final.phase with
    | done => rfl
    | failed => exact absurd phase state.alive
    | head =>
      simp only [step, phase] at stops
      split_ifs at stops
    | bulk =>
      simp only [step, phase] at stops
      split_ifs at stops
    | tail =>
      simp only [step, phase] at stops
      split_ifs at stops
  obtain ⟨sent, beyond⟩ := state.done done
  intro none
  apply beyond
  rw [state.issued (by rw [none, sent]; rfl), BitVec.lt_def, endAddress_toNat inside]
  omega

/-! ### The condition is enough -/

theorem covers_plan (reaches : Reaches (step j) j.start s) (stops : step j s = none)
    (plan : Plan j s.sent) : Covers j :=
  ⟨s, mem_eval.mpr ⟨reaches, stops⟩, fun _ => plan, fun none => absurd ⟨_, plan⟩ none⟩

theorem covers_none (reaches : Reaches (step j) j.start s) (stops : step j s = none) (sent : s.sent = [])
    (no : j.length.toNat ≠ 0 → ¬∃ ops, Plan j ops) : Covers j := by
  by_cases empty : j.length.toNat = 0
  · have plan : Plan j s.sent := by
      rw [sent]
      exact ⟨by rw [empty]; rfl, fun op listed => absurd listed List.not_mem_nil⟩
    exact covers_plan reaches stops plan
  · exact ⟨s, mem_eval.mpr ⟨reaches, stops⟩, fun plan => absurd plan (no empty), fun _ => sent⟩

theorem stop_low (reaches : j.boundary ≤ j.address.toNat + j.length.toNat) : j.boundary ≤ stop j := by
  have positive := (bulk_permitted j).positive
  by_contra above
  have apart := Nat.dvd_sub (bulk_dvd_boundary j) (bulk_dvd_stop j)
  have far := Nat.le_of_dvd (by omega) apart
  have near := Nat.mod_lt (j.address.toNat + j.length.toNat) positive
  rw [stop] at far above
  omega

theorem batches_stop (aligned : j.bulk ∣ j.address.toNat) :
    j.batches (stop j - j.boundary) = j.batches j.length.toNat := by
  have rest : (j.address.toNat + j.length.toNat) % j.bulk = j.length.toNat % j.bulk := by
    rw [Nat.add_mod, Nat.mod_eq_zero_of_dvd aligned, Nat.zero_add, Nat.mod_mod]
  have parts := Nat.div_add_mod' j.length.toNat j.bulk
  have whole : stop j - j.boundary = j.length.toNat / j.bulk * j.bulk := by
    rw [stop, (boundary_eq_iff j).mpr aligned, rest]
    omega
  rw [whole, Job.batches, Job.batches, Nat.mul_div_cancel _ (bulk_permitted j).positive]

theorem wrapped_ends (upto : Upto j s p) (phase : s.phase = .bulk)
    (beyond : j.endAddress.toNat ≤ p % 2 ^ w) (sent : s.queued = []) :
    ∃ s', Reaches (step j) s s' ∧ step j s' = none ∧ s'.sent = s.sent := by
  have here : s.pos.toNat = p % 2 ^ w := by rw [upto.pos, BitVec.toNat_ofNat]
  have bulkOver : ¬s.pos < j.endBulk := by
    rw [BitVec.lt_def, here, endBulk_toNat]
    omega
  have tailOver : ¬s.pos < j.endAddress := by
    rw [BitVec.lt_def, here]
    omega
  have turn : step j s = some { s with phase := .tail } := by
    rw [step, phase]
    exact if_neg bulkOver
  have last : step j { s with phase := .tail } =
    some { ({ s with phase := .tail } : State w).flush with phase := .done } :=
    tail_end rfl tailOver
  refine ⟨_, .head turn (.single last), rfl, ?_⟩
  rw [State.flush, sent, List.append_nil]

theorem endAddress_wraps (beyond : 2 ^ w ≤ j.address.toNat + j.length.toNat) :
    j.endAddress.toNat = j.address.toNat + j.length.toNat - 2 ^ w := by
  have address := j.address.isLt
  have length := j.length.isLt
  rw [Job.endAddress, BitVec.toNat_add, Nat.mod_eq_sub_mod beyond, Nat.mod_eq_of_lt (by omega)]

theorem Regular.covers (regular : Regular j) : Covers j := by
  obtain ⟨s, reaches, phase, upto, sent, _⟩ := head_reaches (start_upto j) rfl regular.address (boundary_low j)
    fun _ => regular.reaches
  rcases regular.ends with inside | ⟨top, boundary⟩
  · obtain ⟨s', bulk, phase', upto', _⟩ :=
      bulk_reaches inside upto phase (bulk_dvd_boundary j) (stop_low regular.reaches)
    obtain ⟨s'', tail, stops, plan⟩ :=
      tail_reaches inside upto' phase' ((edge_dvd_bulk j).trans (bulk_dvd_stop j)) (stop_le j)
      (Nat.dvd_add regular.address regular.length)
    exact covers_plan (reaches.trans (bulk.trans tail)) stops plan
  · have zero : j.endAddress.toNat ≤ j.boundary % 2 ^ w := by
      rw [endAddress_wraps top.ge, top, Nat.sub_self]
      exact Nat.zero_le _
    obtain ⟨s', rest, stops, same⟩ := wrapped_ends upto phase zero sent
    rw [boundary, ← top] at upto
    exact covers_plan (reaches.trans rest) stops (by rw [same]; exact upto.plan sent)

theorem Wrapped.covers (wrapped : Wrapped j) : Covers j := by
  obtain ⟨aligned, beyond⟩ := wrapped
  have first := (boundary_eq_iff j).mpr aligned
  have address := j.address.isLt
  have length := j.length.isLt
  obtain ⟨s, reaches, phase, upto, sent, _⟩ :=
    head_reaches (start_upto j) rfl ((edge_dvd_bulk j).trans aligned) (boundary_low j)
    fun _ => by omega
  rw [first] at upto
  have before : j.endAddress.toNat ≤ j.address.toNat % 2 ^ w := by
    rw [endAddress_wraps beyond.le, Nat.mod_eq_of_lt address]
    omega
  obtain ⟨s', rest, stops, same⟩ := wrapped_ends upto phase before sent
  refine covers_none (reaches.trans rest) stops (by rw [same]; exact upto.none.1) fun some plan => ?_
  rcases plan_iff.mp plan with none | ⟨_, _, room⟩
  · exact some none
  · omega

theorem no_plan (broken : ¬j.edge ∣ j.address.toNat ∨ ¬j.edge ∣ j.length.toNat) (some : j.length.toNat ≠ 0) :
    ¬∃ ops, Plan j ops := by
  intro plan
  rcases plan_iff.mp plan with none | ⟨address, length, _⟩
  · exact some none
  · rcases broken with apart | apart
    · exact apart address
    · exact apart length

theorem Unsent.covers (unsent : Unsent j) : Covers j := by
  obtain ⟨put, why⟩ := unsent
  have start : j.start.pos = BitVec.ofNat w j.address.toNat := (start_upto j).pos
  have fails (early : ∀ k, k * j.edge ≤ j.length.toNat → ¬j.bulk ∣ j.address.toNat + k * j.edge)
      (no : j.length.toNat ≠ 0 → ¬∃ ops, Plan j ops) : Covers j := by
    obtain ⟨s, reaches, stops, sent⟩ := head_fails put rfl start early
    exact covers_none reaches stops sent no
  rcases why with empty | between | ⟨broken, short | ⟨aligned, inside, few⟩⟩
  · have none : j.length.toNat = 0 := by rw [empty]; rfl
    by_cases aligned : j.bulk ∣ j.address.toNat
    · have first := (boundary_eq_iff j).mpr aligned
      apply Regular.covers
      exact ⟨(edge_dvd_bulk j).trans aligned, by rw [none]; exact Nat.dvd_zero _, by omega, .inl (by
        rw [none]
        exact j.address.isLt)⟩
    · refine fails (fun k few => ?_) (fun some => absurd none some)
      have here : k * j.edge = 0 := by omega
      rw [here, Nat.add_zero]
      exact aligned
  · refine fails (fun k _ aligned => between ?_) (no_plan (.inl between))
    have unit := (edge_dvd_bulk j).trans aligned
    exact (Nat.dvd_add_iff_left (Nat.dvd_mul_left _ _)).mpr unit
  · refine fails (fun k few => boundary_first j (Nat.le_add_right _ _) (by omega)) (no_plan (.inr broken))
  · have first := (boundary_eq_iff j).mpr aligned
    obtain ⟨s, reaches, phase, upto, _, cycle⟩ := head_reaches (start_upto j) rfl ((edge_dvd_bulk j).trans aligned)
      (boundary_low j) fun _ => by omega
    have none := upto
    rw [first] at none
    obtain ⟨s', bulk, phase', upto', early⟩ :=
      bulk_reaches inside upto phase (bulk_dvd_boundary j) (stop_low (by omega))
    have sent := early none.none.1 (by rw [cycle, batches_stop aligned]; exact (Nat.zero_add _).trans_lt few)
    obtain ⟨s'', tail, stops, same⟩ :=
      tail_fails put inside upto' phase' ((edge_dvd_bulk j).trans (bulk_dvd_stop j)) (stop_le j)
      (fun unit => broken ((Nat.dvd_add_iff_right ((edge_dvd_bulk j).trans aligned)).mpr unit))
    exact covers_none (reaches.trans (bulk.trans tail)) stops (by rw [same, sent]) (no_plan (.inr broken))

/-! ### The condition is needed -/

theorem covers_length (some : ∃ ops, Plan j ops) (plan : (∃ ops, Plan j ops) → Plan j final.sent) :
    (touched final.sent).length = j.length.toNat := by
  rw [(plan some).covers, List.length_range']

theorem top_misses (address : j.edge ∣ j.address.toNat) (top : j.address.toNat + j.length.toNat = 2 ^ w)
    (early : j.boundary < 2 ^ w) : ¬Covers j := by
  rintro ⟨final, ended, plan, _⟩
  obtain ⟨s, reaches, phase, upto, sent, _⟩ := head_reaches (start_upto j) rfl address (boundary_low j)
    fun _ => by rw [top]; exact early.le
  have zero : j.endAddress.toNat ≤ j.boundary % 2 ^ w := by
    rw [endAddress_wraps top.ge, top, Nat.sub_self]
    exact Nat.zero_le _
  obtain ⟨s', rest, stops, same⟩ := wrapped_ends upto phase zero sent
  have length : j.edge ∣ j.length.toNat := by
    have whole := edge_dvd_space j
    rw [← top] at whole
    exact (Nat.dvd_add_iff_right address).mpr whole
  have moved := covers_length (plan_iff.mpr (.inr ⟨address, length, top.le⟩)) plan
  rw [ended_unique ended (reaches.trans rest) stops, same, upto.sent_length sent] at moved
  have low := boundary_low j
  omega

theorem short_misses (address : j.edge ∣ j.address.toNat) (short : j.address.toNat + j.length.toNat < j.boundary)
    (unsent : ¬Unsent j) : ¬Covers j := by
  rintro ⟨final, ended, plan, none⟩
  have low := boundary_low j
  have space := boundary_space j
  cases tool : j.tool with
  | put =>
    have length : j.edge ∣ j.length.toNat := by
      by_contra broken
      exact unsent ⟨tool, .inr (.inr ⟨broken, .inl short⟩)⟩
    have some : j.length ≠ 0 := fun empty => unsent ⟨tool, .inl empty⟩
    obtain ⟨s, reaches, stops, sent⟩ :=
      head_fails tool rfl (start_upto j).pos fun k (few : k * j.edge ≤ j.length.toNat) =>
      boundary_first j (Nat.le_add_right _ _) (by omega)
    have moved := covers_length (plan_iff.mpr (.inr ⟨address, length, by omega⟩)) plan
    rw [ended_unique ended reaches stops, sent] at moved
    exact some (BitVec.toNat_inj.mp moved.symm)
  | get =>
    obtain ⟨s, reaches, _, upto, sent, _⟩ := head_reaches (start_upto j) rfl address low
      fun put => absurd put (by rw [tool]; decide)
    obtain ⟨more, grown⟩ := reaches_sent (ended_from ended reaches)
    have bytes := upto.sent_length sent
    by_cases some : ∃ ops, Plan j ops
    · have moved := covers_length some plan
      rw [← grown, touched_append, List.length_append, bytes] at moved
      omega
    · rw [(List.append_eq_nil_iff.mp (grown.trans (none some))).1] at bytes
      have empty : 0 = j.boundary - j.address.toNat := bytes
      omega

theorem broken_sends (address : j.edge ∣ j.address.toNat) (reach : j.boundary ≤ j.address.toNat + j.length.toNat)
    (broken : ¬∃ ops, Plan j ops) (wrapped : ¬Wrapped j) (unsent : ¬Unsent j) : ¬Covers j := by
  rintro ⟨final, ended, _, none⟩
  have sent := none broken
  obtain ⟨s, reaches, phase, upto, flushed, cycle⟩ :=
    head_reaches (start_upto j) rfl address (boundary_low j) fun _ => reach
  have rest := ended_from ended reaches
  -- the first loop had nothing to do
  have first : j.boundary = j.address.toNat := by
    have empty := List.prefix_nil.mp (sent ▸ reaches_sent rest)
    have bytes := upto.sent_length flushed
    rw [empty] at bytes
    have zero : 0 = j.boundary - j.address.toNat := bytes
    have low := boundary_low j
    omega
  have aligned := (boundary_eq_iff j).mp first
  have some : 0 < j.length.toNat := Nat.pos_of_ne_zero fun empty => broken (plan_iff.mpr (.inl empty))
  have apart : j.address.toNat + j.length.toNat ≤ 2 ^ w → ¬j.edge ∣ j.length.toNat := fun room length =>
    broken (plan_iff.mpr (.inr ⟨address, length, room⟩))
  have inside : j.address.toNat + j.length.toNat < 2 ^ w := by
    have below : j.address.toNat + j.length.toNat ≤ 2 ^ w := Nat.le_of_not_lt fun beyond => wrapped ⟨aligned, beyond⟩
    rcases Nat.eq_or_lt_of_le below with top | inside
    · have whole := edge_dvd_space j
      rw [← top] at whole
      exact absurd ((Nat.dvd_add_iff_right address).mpr whole) (apart below)
    · exact inside
  cases tool : j.tool with
  | get => exact get_sends tool inside some ended sent
  | put =>
    have many : j.cycles ≤ j.batches j.length.toNat := by
      by_contra few
      exact unsent ⟨tool, .inr (.inr ⟨apart inside.le, .inr ⟨aligned, inside, Nat.lt_of_not_le few⟩⟩)⟩
    obtain ⟨s', bulk, out⟩ := bulk_sends inside upto phase (bulk_dvd_boundary j) (stop_low reach)
      (by rw [cycle]; exact j.positive) (by rw [cycle, batches_stop aligned]; exact many.trans (Nat.le_add_left _ _))
    exact out (List.prefix_nil.mp (sent ▸ reaches_sent (ended_from ended (reaches.trans bulk))))

/-- The tools move exactly the range, or nothing where there is no plan, under this condition. -/
theorem covers_iff (j : Job w) : Covers j ↔ Regular j ∨ Wrapped j ∨ Unsent j := by
  constructor
  · intro covers
    by_contra other
    rw [not_or, not_or] at other
    obtain ⟨regular, wrapped, unsent⟩ := other
    by_cases address : j.edge ∣ j.address.toNat
    · rcases Nat.lt_or_ge (j.address.toNat + j.length.toNat) j.boundary with short | reach
      · exact short_misses address short unsent covers
      · by_cases plan : ∃ ops, Plan j ops
        · rcases plan_iff.mp plan with empty | ⟨_, length, room⟩
          · exact regular ⟨address, by rw [empty]; exact Nat.dvd_zero _, reach, .inl (by rw [empty]; exact j.address.isLt)⟩
          · rcases Nat.eq_or_lt_of_le room with top | inside
            · have early : j.boundary < 2 ^ w := lt_of_le_of_ne (boundary_space j) fun last =>
                regular ⟨address, length, reach, .inr ⟨top, last⟩⟩
              exact top_misses address top early covers
            · exact regular ⟨address, length, reach, .inl inside⟩
        · exact broken_sends address reach plan wrapped unsent covers
    · -- only `eb-put` gets away from such an address
      obtain ⟨final, ended, _⟩ := covers
      cases tool : j.tool with
      | put => exact unsent ⟨tool, .inr (.inl address)⟩
      | get =>
        obtain ⟨reaches, stops⟩ := mem_eval.mp ended
        have phase := (get_stuck tool address reaches).1
        simp only [step, phase] at stops
        split_ifs at stops
  · rintro (regular | wrapped | unsent)
    · exact regular.covers
    · exact wrapped.covers
    · exact unsent.covers

def halfWord : Job 64 := ⟨.get, 0, 2, 4, 1, by decide, by decide, by decide⟩

theorem halfWord_read : ¬Covers halfWord := by
  rintro ⟨final, ended, _, none⟩
  have reaches : Reaches (step halfWord) halfWord.start ⟨.done, 4, 0, 0, [], [⟨0, 4⟩]⟩ :=
    .head (b := ⟨.bulk, 0, 0, 2, [], []⟩) (by decide) <| .head (b := ⟨.tail, 0, 0, 2, [], []⟩) (by decide) <|
      .head (b := ⟨.tail, 4, 0, 0, [⟨0, 4⟩], []⟩) (by decide) <| .single (by decide)
  have broken : ¬∃ ops, Plan halfWord ops := no_plan (.inr (by decide)) (by decide)
  have sent := none broken
  rw [ended_unique ended reaches rfl] at sent
  cases sent

end BelProject.Tools.FileTransfer
