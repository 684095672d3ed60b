import Mathlib
import RuleLang.Proofs.Number.Literal

/-!
# The sign of a number that is read

The double nearest to a decimal has a plus sign: it is zero, infinity or between them, and not minus zero. Rounding
keeps the sign that it is given, and a power of ten is neither zero nor infinite, so nothing that is computed on the
way is NaN.
-/

namespace RuleLang.Number

open Float.Model Float.Model.UnpackedFloat

/-- The doubles with a plus sign. -/
inductive Plus : UnpackedFloat → Prop
  | infinity : Plus (.infinity .positive)
  | zero : Plus (.zero .positive)
  | finite {m : Nat} {e : Int} (h : 0 < m) : Plus (.finite .positive m e h)

section Packing

theorem unpackSign_packComponents (s : Sign) (e : BitVec 11) (m : BitVec 52) :
    Sign.ofBitVec (unpackSign (packComponents .binary64 s e m)) = s := by
  simp only [unpackSign, packComponents, BitVec.extractLsb]
  rw [BitVec.extractLsb'_append_eq_of_le (by omega), BitVec.extractLsb'_append_eq_of_le (by omega)]
  cases s <;> rfl

/-- Fields with a plus sign that are not those of a NaN. -/
theorem plus_unpack_packComponents {e : BitVec 11} {m : BitVec 52} (h : e = -1#11 → m = 0#52) :
    Plus (UnpackedFloat.unpack .binary64 (packComponents .binary64 .positive e m)) := by
  rw [UnpackedFloat.unpack]
  simp only [unpackMantissa_packComponents, unpackExponent_packComponents, unpackSign_packComponents]
  split
  · next he =>
    rw [if_pos (h he)]
    exact .infinity
  · split
    · split
      · exact .zero
      · exact .finite _
    · exact .finite _

theorem Plus.unpack_pack {u : UnpackedFloat} (h : Plus u) :
    Plus (UnpackedFloat.unpack .binary64 (UnpackedFloat.pack .binary64 u)) := by
  cases h with
  | infinity => exact plus_unpack_packComponents fun _ => rfl
  | zero => exact plus_unpack_packComponents fun _ => rfl
  | @finite m e hm =>
    rw [UnpackedFloat.pack]
    dsimp only
    generalize (e + Format.binary64.exponentBias + Format.binary64.mantissaBitsWithoutImplicit).toNat = biased
    by_cases hlarge : 2 ^ 11 ≤ biased + 1
    · rw [if_pos hlarge]
      exact plus_unpack_packComponents fun _ => rfl
    · rw [if_neg hlarge]
      split
      · refine plus_unpack_packComponents fun he => ?_
        have hbits : (BitVec.ofNat 11 biased).toNat = 2047 := congrArg BitVec.toNat he
        rw [BitVec.toNat_ofNat] at hbits
        omega
      · exact plus_unpack_packComponents nofun

end Packing

section Rounding

theorem plus_roundWithAccuracy (m : Nat) (e : Int) (a : Accuracy) :
    Plus (roundWithAccuracy .binary64 .positive m e a) := by
  rw [roundWithAccuracy]
  dsimp only
  split
  · exact .zero
  · exact .finite _

theorem plus_ofUInt64 (n : UInt64) : Plus (UnpackedFloat.ofUInt64 .binary64 n) := by
  rw [UnpackedFloat.ofUInt64, UnpackedFloat.ofNat, UnpackedFloat.ofInt, UnpackedFloat.normalize]
  split
  · next h =>
    have hlt := Int.compare_eq_lt.1 h
    omega
  · exact .zero
  · exact plus_roundWithAccuracy ..

theorem Plus.mul {u : UnpackedFloat} (hu : Plus u) {m : Nat} {e : Int} (h : 0 < m) :
    Plus (UnpackedFloat.mul .binary64 u (.finite .positive m e h)) := by
  cases hu with
  | infinity => exact .infinity
  | zero => exact .zero
  | finite => exact plus_roundWithAccuracy ..

theorem Plus.div {u : UnpackedFloat} (hu : Plus u) {m : Nat} {e : Int} (h : 0 < m) :
    Plus (UnpackedFloat.div .binary64 u (.finite .positive m e h)) := by
  cases hu with
  | infinity => exact .infinity
  | zero => exact .zero
  | finite => exact plus_roundWithAccuracy ..

theorem plus_ofScientific (m : Nat) (e : Int) : Plus (UnpackedFloat.ofScientific .binary64 m e) := by
  rw [UnpackedFloat.ofScientific]
  split
  · exact .zero
  split
  · exact .infinity
  split
  · exact .zero
  split
  · exact Plus.mul (.finite _) _
  · exact Plus.div (.finite _) _

end Rounding

/-- The powers of ten that are doubles are neither zero nor infinite. -/
theorem unpack_powerOfTen (i : Nat) (h : i < Float.exactlyRepresentablePowersOfTen.size) :
    ∃ m e hm, (Float.exactlyRepresentablePowersOfTen[i]).toModel.unpack = .finite .positive m e hm := by
  have hall : ∀ x ∈ Float.exactlyRepresentablePowersOfTen.toList,
      ∃ m e hm, x.toModel.unpack = .finite .positive m e hm := by
    simp only [Float.exactlyRepresentablePowersOfTen, List.forall_mem_cons]
    and_intros
    all_goals first | exact ⟨_, _, _, rfl⟩ | exact nofun
  exact hall _ (Array.getElem_mem_toList h)

theorem plus_floatOfScientific (m : Nat) (s : Bool) (e : Nat) : Plus (Float.ofScientific m s e).toModel.unpack := by
  rw [Float.ofScientific]
  split
  · next h =>
    obtain ⟨n, d, hn, hpower⟩ := unpack_powerOfTen e (by simp [Float.exactlyRepresentablePowersOfTen]; omega)
    dsimp only
    have hm : Plus (m.toUInt64.toFloat).toModel.unpack := (plus_ofUInt64 _).unpack_pack
    split
    · show Plus (Float.Model.pack (UnpackedFloat.div .binary64 _ _)).unpack
      rw [hpower]
      exact (hm.div hn).unpack_pack
    · show Plus (Float.Model.pack (UnpackedFloat.mul .binary64 _ _)).unpack
      rw [hpower]
      exact (hm.mul hn).unpack_pack
  · exact (plus_ofScientific ..).unpack_pack

theorem plus_nearestFloat (d : Decimal) : Plus (nearestFloat d).toModel.unpack := by
  rw [nearestFloat]
  split
  · exact .zero
  split
  · exact .infinity
  · exact plus_floatOfScientific ..

/-- A double with a plus sign is not negative, not minus zero and not NaN. -/
theorem Plus.nonneg {x : Float} (h : Plus x.toModel.unpack) : 0 ≤ x ∧ x ≠ -0 := by
  constructor
  · rw [le_iff_unpack, unpack_zero]
    generalize x.toModel.unpack = u at h
    cases h <;> rfl
  · rintro rfl
    have hzero : (-0 : Float).toModel.unpack = .zero .negative := rfl
    rw [hzero] at h
    cases h

end RuleLang.Number
