import Mathlib
import RuleLang.Number.Arithmetic
import RuleLang.Proofs.Number.Literal

/-!
# Truncation

A finite double is a rational, and a number that is used as an index or as an offset is truncated toward zero: its
integer part is the rational without what comes behind the point. The conversion to a natural of 64 bits takes the
integer part where that is such a natural, and else the nearest one.
-/

namespace RuleLang.Number

open Float.Model Float.Model.UnpackedFloat

/-- The rational without its sign. -/
def Dyadic.magnitude (d : Dyadic) : ℚ :=
  d.coefficient * 2 ^ d.exponent

/-- The rational truncated toward zero. -/
def Dyadic.truncated (d : Dyadic) : Int :=
  if d.negative then -⌊d.magnitude⌋ else ⌊d.magnitude⌋

/-- The integer part of a finite number. -/
def integerPart? (x : Float) : Option Int :=
  (Dyadic.ofFloat? x).map Dyadic.truncated

section Conversion

/-- Shifting a mantissa to the right divides it by a power of two. -/
theorem mantissa_shiftRight (m : ExtendedMantissa) (k : Nat) : (m >>> k).mantissa = m.mantissa / 2 ^ k := by
  induction k with
  | zero =>
    rw [Nat.pow_zero, Nat.div_one]
    rfl
  | succ k ih =>
    show (m >>> k).mantissa / 2 = _
    rw [ih, Nat.div_div_eq_div_mul, Nat.pow_succ]

/-- The magnitude, rounded down, as a quotient of naturals. -/
theorem Dyadic.floor_magnitude (d : Dyadic) :
    ⌊d.magnitude⌋ = (d.coefficient <<< d.exponent.toNat / 2 ^ (-d.exponent).toNat : Nat) := by
  rw [Dyadic.magnitude]
  rcases Int.le_total 0 d.exponent with h | h
  · obtain ⟨n, hn⟩ := Int.eq_ofNat_of_zero_le h
    rw [hn, Int.toNat_natCast, Int.toNat_neg_natCast, Nat.pow_zero, Nat.div_one, Nat.shiftLeft_eq, zpow_natCast]
    exact_mod_cast Int.floor_natCast (d.coefficient * 2 ^ n)
  · obtain ⟨n, hn⟩ := Int.eq_ofNat_of_zero_le (Int.neg_nonneg_of_nonpos h)
    have hexponent : d.exponent = -n := by omega
    rw [hexponent, Int.toNat_neg_natCast, Nat.shiftLeft_zero, Int.neg_neg, Int.toNat_natCast, zpow_neg, zpow_natCast,
      ← div_eq_mul_inv]
    exact_mod_cast Rat.floor_natCast_div_natCast d.coefficient (2 ^ n)

/-- The integer part, computed on naturals. -/
theorem integerPart?_eq {x : Float} {d : Dyadic} (h : Dyadic.ofFloat? x = some d) :
    let quotient : Nat := d.coefficient <<< d.exponent.toNat / 2 ^ (-d.exponent).toNat
    integerPart? x = some (if d.negative then -↑quotient else ↑quotient) := by
  rw [integerPart?, h, Option.map_some, Dyadic.truncated, Dyadic.floor_magnitude]

/-- The conversion of a finite number to an integer truncates toward zero. -/
theorem roundToInt_eq_truncated (s : Sign) (m : Nat) (e : Int) :
    roundToInt s m e = Dyadic.truncated ⟨s == .negative, m, e⟩ := by
  have hshift : (0 - (e - (e - 0).toNat)).toNat = (-e).toNat := by omega
  have hmantissa : ((ExtendedMantissa.ofMantissaAndAccuracy (m <<< (e - 0).toNat) .exact) >>>
      (0 - (e - (e - 0).toNat)).toNat).mantissa = m <<< e.toNat / 2 ^ (-e).toNat := by
    rw [mantissa_shiftRight, hshift, Int.sub_zero]
    rfl
  rw [Dyadic.truncated, Dyadic.floor_magnitude, ← hmantissa]
  cases s <;> rfl

theorem Dyadic.truncated_zero (negative : Bool) (e : Int) : Dyadic.truncated ⟨negative, 0, e⟩ = 0 := by
  rw [Dyadic.truncated, Dyadic.magnitude, Nat.cast_zero, zero_mul, Int.floor_zero]
  exact ite_self 0

theorem toNat_ofNatClamp (n : Nat) : (UInt64.ofNatClamp n).toNat = min n (UInt64.size - 1) := by
  rw [UInt64.ofNatClamp]
  split
  · next h => exact (Nat.min_eq_left (Nat.le_sub_one_of_lt h)).symm
  · next h => exact (Nat.min_eq_right (Nat.le_trans (Nat.sub_le ..) (Nat.le_of_not_lt h))).symm

theorem truncate_eq_toInt (x : Float) :
    truncate x = min (x.toModel.unpack.toInt 0 (UInt64.size - 1)).toNat (UInt64.size - 1) :=
  toNat_ofNatClamp _

/-- The conversion to a natural takes the integer part, or the nearest natural to it. -/
theorem truncate_eq {x : Float} {i : Int} (h : integerPart? x = some i) :
    truncate x = min i.toNat (UInt64.size - 1) := by
  rw [truncate_eq_toInt]
  congr 2
  rw [integerPart?, ofFloat?_eq] at h
  generalize x.toModel.unpack = u at h
  cases u with
  | infinity s => cases h
  | notANumber => cases h
  | zero s =>
    cases h
    exact (Dyadic.truncated_zero ..).symm
  | finite s m e hm =>
    cases h
    exact roundToInt_eq_truncated s m e

/-- What is not above zero goes to zero. -/
theorem truncate_eq_zero {x : Float} (h : x.isNaN ∨ x ≤ 0) : truncate x = 0 := by
  have hnan : x.isNaN = x.toModel.unpack.isNaN := rfl
  rw [le_iff_unpack, unpack_zero, hnan] at h
  rw [truncate_eq_toInt]
  generalize x.toModel.unpack = u at h
  cases u with
  | notANumber => rfl
  | zero s => rfl
  | infinity s =>
    cases s with
    | positive => exact absurd h (by decide)
    | negative => rfl
  | finite s m e hm =>
    cases s with
    | positive =>
      rcases h with h | h
      · cases h
      · cases h
    | negative =>
      have hle : roundToInt .negative m e ≤ 0 := by
        rw [roundToInt_eq_truncated, Dyadic.truncated, Dyadic.floor_magnitude]
        exact Int.neg_nonpos_of_nonneg (Int.natCast_nonneg _)
      show min (roundToInt .negative m e).toNat _ = 0
      omega

/-- What is above zero and has no integer part is infinite. -/
theorem truncate_eq_of_integerPart?_eq_none {x : Float} (h : ¬(x.isNaN ∨ x ≤ 0)) (hpart : integerPart? x = none) :
    truncate x = UInt64.size - 1 := by
  have hnan : x.isNaN = x.toModel.unpack.isNaN := rfl
  rw [le_iff_unpack, unpack_zero, hnan] at h
  rw [integerPart?, ofFloat?_eq] at hpart
  rw [truncate_eq_toInt]
  generalize x.toModel.unpack = u at h hpart
  cases u with
  | notANumber => exact absurd (.inl rfl) h
  | zero s => cases hpart
  | finite s m e hm => cases hpart
  | infinity s =>
    cases s with
    | positive => rfl
    | negative => exact absurd (.inr rfl) h

end Conversion

section Sign

/-- The coefficient of a double has at most 53 digits, and exactly these unless the exponent is the least. -/
theorem Dyadic.canonical_of_ofFloat? {x : Float} {d : Dyadic} (h : Dyadic.ofFloat? x = some d) :
    d.coefficient < 2 ^ 53 ∧ (d.exponent = Dyadic.minExponent ∨ 2 ^ 52 ≤ d.coefficient) := by
  have hfraction : x.toBits.toNat % 1 <<< 52 < 2 ^ 52 := Nat.mod_lt _ (by decide)
  simp only [Dyadic.ofFloat?] at h
  generalize x.toBits.toNat % 1 <<< 52 = fraction at h hfraction
  split at h
  · cases h
  split at h
  · cases h
    exact ⟨Nat.lt_trans hfraction (by decide), .inl rfl⟩
  · cases h
    exact ⟨Nat.add_lt_add_left hfraction (1 <<< 52), .inr (Nat.le_add_right (1 <<< 52) fraction)⟩

/-- What lies between minus one and one has a small exponent. -/
theorem Dyadic.magnitude_lt_one_iff {d : Dyadic} (hlt : d.coefficient < 2 ^ 53)
    (hle : d.exponent = Dyadic.minExponent ∨ 2 ^ 52 ≤ d.coefficient) :
    d.magnitude < 1 ↔ d.exponent < -52 ∨ (d.exponent = -52 ∧ d.coefficient < 2 ^ 52) := by
  have hcoefficient : (d.coefficient : ℚ) < 2 ^ 53 := by exact_mod_cast hlt
  have hmono {i j : Int} (hij : i ≤ j) : (2 : ℚ) ^ i ≤ 2 ^ j := zpow_le_zpow_right₀ one_le_two hij
  rw [Dyadic.magnitude]
  rcases Int.lt_trichotomy d.exponent (-52) with h | h | h
  · refine iff_of_true ?_ (.inl h)
    calc (d.coefficient : ℚ) * 2 ^ d.exponent < 2 ^ 53 * 2 ^ d.exponent := by gcongr
      _ ≤ 2 ^ 53 * 2 ^ (-53 : ℤ) := mul_le_mul_of_nonneg_left (hmono (by omega)) (by positivity)
      _ = 1 := by norm_num
  · have hpower : ((2 : ℚ) ^ (52 : ℕ))⁻¹ = 2 ^ d.exponent := by
      rw [h]
      norm_num
    rw [← hpower, ← div_eq_mul_inv, div_lt_one (by positivity)]
    have hcast : (d.coefficient : ℚ) < 2 ^ 52 ↔ d.coefficient < 2 ^ 52 := by exact_mod_cast Iff.rfl
    rw [hcast]
    omega
  · have hlarge : 2 ^ 52 ≤ d.coefficient := hle.resolve_left (by simp only [Dyadic.minExponent]; omega)
    have hcoefficient' : (2 : ℚ) ^ 52 ≤ d.coefficient := by exact_mod_cast hlarge
    refine iff_of_false (not_lt.2 ?_) (by omega)
    calc (1 : ℚ) ≤ 2 ^ 52 * 2 ^ (-51 : ℤ) := by norm_num
      _ ≤ d.coefficient * 2 ^ d.exponent := mul_le_mul hcoefficient' (hmono (by omega)) (by positivity) (by positivity)

theorem Dyadic.truncated_nonneg_iff (d : Dyadic) : 0 ≤ d.truncated ↔ d.negative = false ∨ d.magnitude < 1 := by
  have hnonneg : 0 ≤ ⌊d.magnitude⌋ := by
    rw [Dyadic.floor_magnitude]
    exact Int.natCast_nonneg _
  have hfloor : ⌊d.magnitude⌋ ≤ 0 ↔ d.magnitude < 1 := by
    rw [← Int.lt_add_one_iff, Int.floor_lt]
    norm_num
  rw [Dyadic.truncated]
  cases d.negative with
  | false => simpa using hnonneg
  | true => simpa using hfloor

theorem unpack_neg_one : (-1 : Float).toModel.unpack = .finite .negative (2 ^ 52) (-52) (by decide) := by
  rfl

/-- A finite number is greater than minus one exactly if its integer part is not negative. -/
theorem neg_one_lt_iff {x : Float} {d : Dyadic} (h : Dyadic.ofFloat? x = some d) : -1 < x ↔ 0 ≤ d.truncated := by
  obtain ⟨hlt, hle⟩ := Dyadic.canonical_of_ofFloat? h
  rw [Dyadic.truncated_nonneg_iff, Dyadic.magnitude_lt_one_iff hlt hle, lt_iff_unpack, unpack_neg_one]
  rw [ofFloat?_eq] at h
  generalize x.toModel.unpack = u at h
  cases u with
  | infinity s => cases h
  | notANumber => cases h
  | zero s =>
    cases h
    exact iff_of_true rfl (.inr (.inl (by decide : Dyadic.minExponent < -52)))
  | finite s m e hm =>
    cases h
    cases s with
    | positive => exact iff_of_true rfl (.inl rfl)
    | negative =>
      have hcompare : (UnpackedFloat.finite .negative (2 ^ 52) (-52) (by decide)).lt (.finite .negative m e hm) ↔
          (compare (-52) e).then (compare (2 ^ 52) m) = .gt := by
        rw [UnpackedFloat.lt, beq_iff_eq, UnpackedFloat.compare, Option.some_inj, Ordering.swap_eq_lt]
      rw [hcompare, Ordering.then_eq_gt, Int.compare_eq_gt, Int.compare_eq_eq, Nat.compare_eq_gt, eq_comm]
      exact (or_iff_right (nofun : true ≠ false)).symm

end Sign

/-- The finite numbers are those that are rationals. -/
theorem isFinite_iff {x : Float} : x.isFinite ↔ ∃ d, Dyadic.ofFloat? x = some d := by
  show x.toModel.unpack.isFinite ↔ _
  rw [ofFloat?_eq]
  cases x.toModel.unpack with
  | infinity s => exact iff_of_false Bool.false_ne_true nofun
  | notANumber => exact iff_of_false Bool.false_ne_true nofun
  | zero s => exact iff_of_true rfl ⟨_, rfl⟩
  | finite s m e hm => exact iff_of_true rfl ⟨_, rfl⟩

end RuleLang.Number
