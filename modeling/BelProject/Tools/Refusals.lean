import BelProject.Tools.EbRead

/-! When `eb-write` and `eb-read` give up, beyond their checks of the command line: the line and the
device have no size in common, or another size than the given one would have to be used, or the byte
order is needed and nobody knows it. -/

namespace BelProject.Tools.Refusals
open BelProject.Library Etherbone Width Operations EbWrite

/-- The sizes that the line and the device have in common. -/
def commonSizes (p : Port) (support : UInt8) : UInt8 := ((p.widths &&& ebDataX) <<< 1) - 1 &&& support

def Refuses (p : Port) (order : Option Host) (fidelity : Bool) (size support : UInt8) : Prop :=
  commonSizes p support = 0 ∨ (size &&& commonSizes p support = 0 ∧ (fidelity = true ∨ order = none)) ∨
    (size &&& commonSizes p support ≠ 0 ∧ size.toNat ≠ p.data ∧ order = none)

variable {p : Port} {config fidelity : Bool} {order : Option Host} {size support common part : UInt8}
  {address data : Nat}

/-- The last choice of the fragments and of the wider word. -/
theorem order_refused {α : Type} {refused big little : α} (bigGoes : big ≠ refused) (littleGoes : little ≠ refused) :
    (if endianBits order = ebBigEndian then big else if endianBits order = ebLittleEndian then little
      else refused) = refused ↔
      order = none := by
  rcases order with _ | _ | _
  · exact ⟨fun _ => rfl, fun _ => rfl⟩
  · exact ⟨fun same => absurd same bigGoes, fun none => nomatch none⟩
  · exact ⟨fun same => absurd same littleGoes, fun none => nomatch none⟩

theorem order_bits (isPart : IsSize part.toNat) (small : part.toNat ≤ p.data) :
    (endianBits order ||| part) &&& ebEndianMask = endianBits order := by
  have bits := (formats_all p.data part.toNat order p.data_size isPart small).2.2.2.1
  rw [UInt8.ofNat_toNat] at bits
  exact bits

theorem direct_refused {α : Type} {missing : Prop} [Decidable missing] {refused goes : α} (apart : goes ≠ refused) :
    (if missing then refused else goes) = refused ↔ missing :=
  ⟨fun same => by_contra fun fine => apart ((if_neg fine).symm.trans same), fun missing => if_pos missing⟩

theorem map_write (ops : Option (List Operation)) : ops.map Plan.write ≠ some .refused := by
  cases ops with
  | none => exact nofun
  | some ops => exact nofun

theorem isSize_of (sizes : size = 1 ∨ size = 2 ∨ size = 4 ∨ size = 8) : IsSize size.toNat := by
  rcases sizes with h | h | h | h <;> rw [h] <;> decide

/-- The choice of both tools, from what each of its three ways does. -/
theorem choice_refused (sizes : size = 1 ∨ size = 2 ∨ size = 4 ∨ size = 8)
    (line : commonSizes p support = common) {α : Type}
    {refused fragment wide direct : α}
    (fragments : ∀ part : UInt8, smear (smear size &&& common) ^^^ (smear (smear size &&& common) >>> 1) = part →
      IsSize part.toNat → part.toNat ≤ p.data → (fragment = refused ↔ order = none))
    (widens : ∀ part : UInt8, common &&& (0 - common) = part → IsSize part.toNat → part.toNat ≤ p.data →
      (wide = refused ↔ order = none))
    (fits : size &&& common = size → (direct = refused ↔ size.toNat ≠ p.data ∧ order = none)) :
    (if common = 0 then refused
      else if size &&& common = 0 then
        if fidelity then refused else if smear size &&& common ≠ 0 then fragment else wide
      else direct) = refused ↔ Refuses p order fidelity size support := by
  rw [Refuses, line]
  apply sizes_choice p sizes line fidelity (fun plan => plan = refused ↔ _)
  · intro way
    refine ⟨fun _ => ?_, fun _ => rfl⟩
    rcases way with none | ⟨apart, strict⟩
    · exact Or.inl none
    · exact Or.inr (Or.inl ⟨apart, Or.inl strict⟩)
  · rintro ⟨some, apart, loose⟩ _ part largest isPart _ small
    rw [fragments part largest isPart small]
    tauto
  · rintro ⟨some, apart, loose⟩ _ part smallest isPart _ small
    rw [widens part smallest isPart small]
    tauto
  · rintro ⟨some, together⟩ same _
    rw [fits same]
    tauto

theorem write_refused (sizes : size = 1 ∨ size = 2 ∨ size = 4 ∨ size = 8) :
    EbWrite.chosen p config fidelity (endianBits order) size support address data = some .refused ↔
      Refuses p order fidelity size support := by
  rw [EbWrite.chosen]
  generalize line : ((p.widths &&& ebDataX) <<< 1) - 1 &&& support = common
  apply choice_refused sizes line
  · intro part largest isPart small
    rw [EbWrite.fragment]
    simp only [largest, order_bits isPart small]
    exact order_refused (map_write _) (map_write _)
  · intro part smallest isPart small
    rw [EbWrite.fill]
    simp only [smallest, order_bits isPart small, Option.some.injEq]
    exact order_refused (by simp) (by simp)
  · intro same
    rw [EbWrite.direct, same, ← endian_missing (isSize_of sizes), Option.some.injEq]
    exact direct_refused (by simp)

theorem read_refused (sizes : size = 1 ∨ size = 2 ∨ size = 4 ∨ size = 8) :
    EbRead.chosen p config fidelity (endianBits order) size support address = .refused ↔
      Refuses p order fidelity size support := by
  rw [EbRead.chosen]
  generalize line : ((p.widths &&& ebDataX) <<< 1) - 1 &&& support = common
  apply choice_refused sizes line
  · intro part largest isPart small
    rw [EbRead.fragment]
    simp only [largest, order_bits isPart small]
    exact order_refused (by simp) (by simp)
  · intro part smallest isPart small
    rw [EbRead.wide]
    simp only [smallest, order_bits isPart small]
    exact order_refused (by simp) (by simp)
  · intro same
    rw [EbRead.direct, same, ← endian_missing (isSize_of sizes)]
    exact direct_refused (by simp)

variable {arguments : Arguments}

/-- A command line that passes the checks is refused only by the choice of the way. -/
theorem ebWrite_refused_iff : ebWrite p arguments = some .refused ↔
    ((arguments.size = 1 ∨ arguments.size = 2 ∨ arguments.size = 4 ∨ arguments.size = 8) →
      arguments.address % p.wordMod &&& (arguments.size.toNat - 1) = 0 → arguments.size.toNat ≤ p.word →
      arguments.data % p.wordMod &&& dataMask p arguments.size.toNat = arguments.data % p.wordMod →
      ∀ support, deviceSupport arguments = some support →
        Refuses p (selected arguments) arguments.fidelity arguments.size support) := by
  unfold ebWrite
  cases known : deviceSupport arguments with
  | none => simp only [ite_self, reduceCtorEq, false_implies, implies_true]
  | some support =>
    simp only [selected_endian known, Option.some.injEq, forall_eq']
    split_ifs with unlisted skew wide cut
    · exact ⟨fun _ sizes => by tauto, fun _ => rfl⟩
    · exact ⟨fun _ _ straight => absurd straight skew, fun _ => rfl⟩
    · exact ⟨fun _ _ _ inWord => absurd inWord (Nat.not_le.mpr wide), fun _ => rfl⟩
    · exact ⟨fun _ _ _ _ whole => absurd whole cut, fun _ => rfl⟩
    · have sizes : arguments.size = 1 ∨ arguments.size = 2 ∨ arguments.size = 4 ∨ arguments.size = 8 := by tauto
      rw [write_refused sizes]
      exact ⟨fun refuses _ _ _ _ => refuses,
        fun checked => checked sizes (not_not.mp skew) (Nat.not_lt.mp wide) (not_not.mp cut)⟩

theorem ebRead_refused_iff : EbRead.ebRead p arguments = .refused ↔
    ((arguments.size = 1 ∨ arguments.size = 2 ∨ arguments.size = 4 ∨ arguments.size = 8) →
      arguments.address % p.wordMod &&& (arguments.size.toNat - 1) = 0 → arguments.size.toNat ≤ p.word →
      ∀ support, deviceSupport arguments = some support →
        Refuses p (selected arguments) arguments.fidelity arguments.size support) := by
  unfold EbRead.ebRead
  cases known : deviceSupport arguments with
  | none => simp only [ite_self, reduceCtorEq, false_implies, implies_true]
  | some support =>
    simp only [selected_endian known, Option.some.injEq, forall_eq']
    split_ifs with unlisted skew wide
    · exact ⟨fun _ sizes => by tauto, fun _ => rfl⟩
    · exact ⟨fun _ _ straight => absurd straight skew, fun _ => rfl⟩
    · exact ⟨fun _ _ _ inWord => absurd inWord (Nat.not_le.mpr wide), fun _ => rfl⟩
    · have sizes : arguments.size = 1 ∨ arguments.size = 2 ∨ arguments.size = 4 ∨ arguments.size = 8 := by tauto
      rw [read_refused sizes]
      exact ⟨fun refuses _ _ _ => refuses, fun checked => checked sizes (not_not.mp skew) (Nat.not_lt.mp wide)⟩

end BelProject.Tools.Refusals
