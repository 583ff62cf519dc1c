import Mathlib.Data.List.Basic
import Mathlib.Data.BitVec
import Mathlib.Tactic.SplitIfs

/-! `eca_lvds_channel`: for each output a register of sixteen sub-cycles, the eight of this clock in
front. With each clock it is shifted by eight, its last level is held, and an action changes it from
the sub-cycle of its offset on. Read byte after byte, an output is the waveform of the actions. -/

namespace BelProject.Lvds.Channel

/-- What is used of `t_channel`. -/
structure TChannel where
  valid : Bool
  tag : BitVec 32
  tef : BitVec 32

/-- `t_lvds_shifter`: the highest of the `c_frac_len` bits is the first to go out. -/
abbrev Shifter := Fin 16 → Bool

/-- `r_lvds`, for `c_width` outputs. -/
abbrev Registers := Fin 12 → Shifter

section
variable (c : TChannel) (i : Fin 12) (j : Fin 16)

def vClr : BitVec 12 := c.tag.extractLsb' 12 12
def vSet : BitVec 12 := c.tag.extractLsb' 0 12

def vOff : BitVec 4 := (0#1 ++ c.tag.extractLsb' 29 3) + (0#1 ++ c.tef.extractLsb' 29 3)

/-- The bits of the register that the action reaches. -/
def reached : Bool := c.valid && decide (16 - j.val > (vOff c).toNat)

def vSetv : Bool := if reached c j then (vSet c).getLsbD i else false
def vClrv : Bool := if reached c j then (vClr c).getLsbD i else false

def vLvds (r : Shifter) : Bool := if 8 ≤ j.val then r ⟨j.val - 8, by omega⟩ else r 0

def clock (r : Registers) : Registers := fun i j =>
  (!vSetv c i j && !vClrv c i j && vLvds j (r i)) ||
  (vSetv c i j && vClrv c i j && !vLvds j (r i)) ||
  (vSetv c i j && !vClrv c i j)

end

/-- `lvds_o`, from its highest bit down. -/
def lvdsO (r : Registers) (i : Fin 12) : List Bool := (List.range 8).map fun k => r i ⟨15 - k, by omega⟩

def start : Registers := fun _ _ => false

def run (channels : List TChannel) : Registers := channels.foldl (fun r c => clock c r) start

/-- The bytes of an output after each of the clocks. -/
def wave (i : Fin 12) (channels : List TChannel) : List Bool :=
  (List.range channels.length).flatMap fun n => lvdsO (run (channels.take (n + 1))) i

def offset (c : TChannel) : ℕ := (c.tag.extractLsb' 29 3).toNat + (c.tef.extractLsb' 29 3).toNat

def effect (set clr level : Bool) : Bool :=
  match set, clr with
  | true, true => !level
  | true, false => true
  | false, true => false
  | false, false => level

/-- The level in sub-cycle t: the actions that are due, in the order in which they came. -/
def level (i : Fin 12) (channels : List TChannel) (t : ℕ) : Bool :=
  channels.zipIdx.foldl (fun level (c, n) =>
    if c.valid = true ∧ 8 * n + offset c ≤ t then effect ((vSet c).getLsbD i) ((vClr c).getLsbD i) level
      else level) false

variable {c : TChannel} {channels : List TChannel} {i : Fin 12} {r : Registers} {t p : ℕ}

theorem vOff_toNat : (vOff c).toNat = offset c := by
  have table : ∀ a b : BitVec 3, ((0#1 ++ a) + (0#1 ++ b) : BitVec 4).toNat = a.toNat + b.toNat := by decide
  exact table _ _

theorem offset_le : offset c ≤ 14 := by
  have tag : (c.tag.extractLsb' 29 3).toNat < 8 := BitVec.isLt _
  have tef : (c.tef.extractLsb' 29 3).toNat < 8 := BitVec.isLt _
  rw [offset]
  omega

theorem level_concat (i : Fin 12) (channels : List TChannel) (c : TChannel) (t : ℕ) :
    level i (channels ++ [c]) t =
      if c.valid = true ∧ 8 * channels.length + offset c ≤ t then
        effect ((vSet c).getLsbD i) ((vClr c).getLsbD i) (level i channels t)
      else level i channels t := by
  rw [level, List.zipIdx_append, List.foldl_append, Nat.zero_add]
  rfl

theorem level_past (before : t < 8 * channels.length) : level i (channels ++ [c]) t = level i channels t := by
  rw [level_concat]
  apply if_neg
  rintro ⟨_, due⟩
  omega

theorem clock_effect (j : Fin 16) :
    clock c r i j =
      if c.valid = true ∧ offset c ≤ 15 - j.val then effect ((vSet c).getLsbD i) ((vClr c).getLsbD i) (vLvds j (r i))
      else vLvds j (r i) := by
  have same : reached c j = decide (c.valid = true ∧ offset c ≤ 15 - j.val) := by
    have inside := j.isLt
    rw [reached, vOff_toNat, Bool.decide_and, Bool.decide_eq_true]
    congr 1
    apply decide_eq_decide.mpr
    omega
  rw [clock, vSetv, vClrv, same]
  by_cases due : c.valid = true ∧ offset c ≤ 15 - j.val
  · rw [decide_eq_true due, if_pos rfl, if_pos rfl, if_pos due]
    cases (vSet c).getLsbD i <;> cases (vClr c).getLsbD i <;> cases vLvds j (r i) <;> rfl
  · rw [decide_eq_false due, if_neg Bool.false_ne_true, if_neg Bool.false_ne_true, if_neg due]
    cases vLvds j (r i) <;> rfl

/-- The bits behind the byte that is out are the levels to come, the lowest one all further on. -/
def Ahead (r : Registers) (channels : List TChannel) (i : Fin 12) : Prop :=
  ∀ p, level i channels (8 * channels.length + p) = r i ⟨7 - min p 7, by omega⟩

theorem Ahead.clock (ahead : Ahead r channels i) (p : ℕ) :
    level i (channels ++ [c]) (8 * channels.length + p) = clock c r i ⟨15 - min p 15, by omega⟩ := by
  have shifted : vLvds ⟨15 - min p 15, by omega⟩ (r i) = level i channels (8 * channels.length + p) := by
    rw [ahead p, vLvds]
    split_ifs with front
    · apply congrArg (r i)
      apply Fin.ext
      dsimp only at front ⊢
      omega
    · apply congrArg (r i)
      apply Fin.ext
      dsimp only [Fin.val_zero] at front ⊢
      omega
  have due : 8 * channels.length + offset c ≤ 8 * channels.length + p ↔ offset c ≤ 15 - (15 - min p 15) := by
    have small := offset_le (c := c)
    omega
  rw [level_concat, clock_effect, shifted]
  exact if_congr (and_congr_right fun _ => due) rfl rfl

theorem Ahead.step (ahead : Ahead r channels i) (c : TChannel) : Ahead (Channel.clock c r) (channels ++ [c]) i := by
  intro p
  have later : 8 * (channels ++ [c]).length + p = 8 * channels.length + (8 + p) := by
    rw [List.length_append, List.length_singleton]
    omega
  rw [later, ahead.clock]
  congr 2
  omega

theorem run_concat (channels : List TChannel) (c : TChannel) : run (channels ++ [c]) = clock c (run channels) := by
  rw [run, List.foldl_append]
  rfl

theorem ahead_run (channels : List TChannel) (i : Fin 12) : Ahead (run channels) channels i := by
  induction channels using List.reverseRecOn with
  | nil => exact fun _ => rfl
  | append_singleton channels c ih =>
    rw [run_concat]
    exact ih.step c

theorem wave_concat (i : Fin 12) (channels : List TChannel) (c : TChannel) :
    wave i (channels ++ [c]) = wave i channels ++ lvdsO (run (channels ++ [c])) i := by
  have before : ∀ n ∈ List.range channels.length, (channels ++ [c]).take (n + 1) = channels.take (n + 1) := by
    intro n inside
    exact List.take_append_of_le_length (List.mem_range.mp inside)
  have all : (channels ++ [c]).take (channels.length + 1) = channels ++ [c] := by
    apply List.take_of_length_le
    rw [List.length_append, List.length_singleton]
  rw [wave, List.length_append, List.length_singleton, List.range_succ, List.flatMap_append,
    List.flatMap_singleton, all, wave]
  congr 1
  apply List.flatMap_congr
  intro n inside
  rw [before n inside]

/-- Byte after byte, the first bit in front, an output is the waveform of the actions. -/
theorem wave_levels (i : Fin 12) (channels : List TChannel) :
    wave i channels = (List.range (8 * channels.length)).map (level i channels) := by
  induction channels using List.reverseRecOn with
  | nil => rfl
  | append_singleton channels c ih =>
    have longer : 8 * (channels ++ [c]).length = 8 * channels.length + 8 := by
      rw [List.length_append, List.length_singleton]
      omega
    have past : (List.range (8 * channels.length)).map (level i (channels ++ [c])) =
        (List.range (8 * channels.length)).map (level i channels) := by
      apply List.map_congr_left
      intro t inside
      exact level_past (List.mem_range.mp inside)
    have byte : lvdsO (run (channels ++ [c])) i =
        (List.range 8).map fun k => level i (channels ++ [c]) (8 * channels.length + k) := by
      apply List.map_congr_left
      intro k inside
      have few := List.mem_range.mp inside
      rw [(ahead_run channels i).clock, run_concat]
      congr 2
      omega
    rw [wave_concat, ih, longer, List.range_add, List.map_append, past, byte, List.map_map]
    rfl

/-- Set at an offset of 3, and toggled in the next clock at once. -/
example : wave 0 [⟨true, 3 <<< 29 ||| 1, 0⟩, ⟨true, 1 <<< 12 ||| 1, 0⟩] =
    [false, false, false, true, true, true, true, true, false, false, false, false, false, false, false, false] := by
  decide

end BelProject.Lvds.Channel
