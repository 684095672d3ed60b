import Mathlib
import RuleLang.Proofs.Number.Sign
import RuleLang.Proofs.Number.Truncation

/-!
# Integers as doubles

An integer of less than 54 binary digits is a double: with zeros put behind its digits until there are 53 of them it is
the coefficient, and the exponent takes the zeros away again. The conversion does this and then multiplies by one, and
both steps round to a target that is already met. So the double is the one that the integer was read off.
-/

namespace RuleLang.Number

open Float.Model Float.Model.UnpackedFloat

section Rounding

variable {m : Nat} {e : Int}

/-- Zeros that are shifted out leave no trace. -/
theorem shiftRight_exact (m k : Nat) :
    (ExtendedMantissa.ofMantissaAndAccuracy (m * 2 ^ k) .exact) >>> k = .ofMantissaAndAccuracy m .exact := by
  induction k generalizing m with
  | zero =>
    rw [Nat.pow_zero, Nat.mul_one]
    rfl
  | succ k ih =>
    have hpower : m * 2 ^ (k + 1) = m * 2 * 2 ^ k := by rw [Nat.pow_succ, Nat.mul_comm (2 ^ k), Nat.mul_assoc]
    show (ExtendedMantissa.ofMantissaAndAccuracy (m * 2 ^ (k + 1)) .exact >>> k).shiftRightOne = _
    rw [hpower, ih]
    show ExtendedMantissa.mk (m * 2 / 2) (m * 2 % 2 != 0) false = ⟨m, false, false⟩
    rw [Nat.mul_div_cancel m Nat.two_pos, Nat.mul_mod_left]
    rfl

/-- Fifty-three digits with zeros behind them have the exponent that belongs to the digits. -/
theorem shiftToTargetExponent_exact (hlo : 2 ^ 52 ≤ m) (hhi : m < 2 ^ 53) (he : -1074 ≤ e) (k : Nat) :
    shiftToTargetExponent .binary64 (m * 2 ^ k) (e - k) .exact = (.ofMantissaAndAccuracy m .exact, e) := by
  have hlog : (m * 2 ^ k).log2 = 52 + k := by
    rw [Nat.log2_eq_iff (Nat.ne_of_gt (Nat.mul_pos (by omega) (Nat.two_pow_pos k))), Nat.pow_add,
      Nat.add_right_comm, Nat.pow_add _ _ k]
    exact ⟨Nat.mul_le_mul_right _ hlo, Nat.mul_lt_mul_of_pos_right hhi (Nat.two_pow_pos k)⟩
  have htarget : Format.binary64.targetExponent (totalExponent (m * 2 ^ k) (e - k)) = e := by
    simp only [Format.targetExponent, totalExponent, hlog, Format.mantissaBits, Format.minExponent]
    omega
  have hshift : (e - (e - k)).toNat = k := by omega
  rw [shiftToTargetExponent, htarget, shiftToExponent, hshift, shiftRight_exact, Int.sub_add_cancel]

/-- Rounding drops the zeros and nothing else. -/
theorem roundWithAccuracy_exact (s : Sign) (hlo : 2 ^ 52 ≤ m) (hhi : m < 2 ^ 53) (he : -1074 ≤ e) (k : Nat) :
    roundWithAccuracy .binary64 s (m * 2 ^ k) (e - k) .exact = .finite s m e (by omega) := by
  have hfixed := shiftToTargetExponent_exact hlo hhi he 0
  have hrounded : (ExtendedMantissa.ofMantissaAndAccuracy m .exact).roundedMantissa = m := rfl
  rw [Nat.pow_zero, Nat.mul_one, Int.natCast_zero, Int.sub_zero] at hfixed
  rw [roundWithAccuracy, shiftToTargetExponent_exact hlo hhi he k]
  simp only [hrounded, hfixed]
  exact dif_neg (Nat.ne_of_gt (by omega : 0 < m))

/-- The digits of an integer with zeros behind them are the fields of the double that it is converted to. -/
theorem ofNat_exact {n k : Nat} (hlo : 2 ^ 52 ≤ n * 2 ^ k) (hhi : n * 2 ^ k < 2 ^ 53) (hk : k ≤ 52) :
    UnpackedFloat.ofNat .binary64 n = .finite .positive (n * 2 ^ k) (-k) (by omega) := by
  have hn : 0 < n := Nat.pos_of_ne_zero fun h => by simp [h] at hlo
  have hlog : n.log2 = 52 - k := by
    rw [Nat.log2_eq_iff (Nat.ne_of_gt hn)]
    have hone : 2 ^ (52 - k) * 2 ^ k = 2 ^ 52 := by rw [← Nat.pow_add, Nat.sub_add_cancel hk]
    have htwo : 2 ^ (52 - k + 1) * 2 ^ k = 2 ^ 53 := by rw [← Nat.pow_add, Nat.add_right_comm, Nat.sub_add_cancel hk]
    rw [← hone] at hlo
    rw [← htwo] at hhi
    exact ⟨Nat.le_of_mul_le_mul_right hlo (Nat.two_pow_pos k), Nat.lt_of_mul_lt_mul_right hhi⟩
  have htarget : Format.binary64.targetExponent (totalExponent n 0) = -k := by
    simp only [Format.targetExponent, totalExponent, hlog, Format.mantissaBits, Format.minExponent]
    omega
  have hshift : (0 - -(k : Int)).toNat = k := by omega
  have hround := roundWithAccuracy_exact .positive hlo hhi (by omega : -1074 ≤ -(k : Int)) 0
  rw [Nat.pow_zero, Nat.mul_one, Int.natCast_zero, Int.sub_zero] at hround
  show UnpackedFloat.normalize .binary64 n 0 .positive = _
  rw [UnpackedFloat.normalize, Int.compare_eq_gt.2 (by omega : (0 : Int) < n)]
  show UnpackedFloat.round .binary64 .positive n 0 = _
  rw [UnpackedFloat.round, htarget, decreaseExponent, hshift, Nat.shiftLeft_eq, Int.zero_sub]
  exact hround

/-- A normal double keeps its fields when it is packed into bits. -/
theorem unpack_pack_finite (s : Sign) (hlo : 2 ^ 52 ≤ m) (hhi : m < 2 ^ 53) (he : -1074 ≤ e) (he' : e ≤ 971) :
    UnpackedFloat.unpack .binary64 (UnpackedFloat.pack .binary64 (.finite s m e (by omega))) =
      .finite s m e (by omega) := by
  have hlog : m.log2 = 52 := (Nat.log2_eq_iff (by omega)).2 ⟨hlo, hhi⟩
  obtain ⟨scale, hscale⟩ := Int.eq_ofNat_of_zero_le (by omega : 0 ≤ e + 1075)
  have hbiased : (e + Format.binary64.exponentBias + Format.binary64.mantissaBitsWithoutImplicit).toNat = scale := by
    show (e + 1023 + 52).toNat = scale
    omega
  have hexponent : (BitVec.ofNat 11 scale).toNat = scale := (BitVec.toNat_ofNat ..).trans (Nat.mod_eq_of_lt (by omega))
  have hlast : BitVec.ofNat 11 scale ≠ -1#11 := by
    intro h
    have hbits : (BitVec.ofNat 11 scale).toNat = 2047 := congrArg BitVec.toNat h
    omega
  have hfirst : BitVec.ofNat 11 scale ≠ 0#11 := by
    intro h
    have hbits : (BitVec.ofNat 11 scale).toNat = 0 := congrArg BitVec.toNat h
    omega
  have hmantissa : (1#1 ++ BitVec.ofNat 52 m).toNat = m := by
    rw [BitVec.toNat_append, ← Nat.shiftLeft_add_eq_or_of_lt (BitVec.isLt _), BitVec.toNat_ofNat]
    show 2 ^ 52 + m % 2 ^ 52 = m
    omega
  have hvalue : (scale : Int) - (Format.binary64.exponentBias + Format.binary64.mantissaBitsWithoutImplicit) = e := by
    show (scale : Int) - (1023 + 52) = e
    omega
  have hnormal : 52 + 1 = Format.binary64.mantissaBits := rfl
  rw [UnpackedFloat.pack]
  dsimp only
  rw [hbiased, hlog, if_neg (by omega : ¬2 ^ 11 ≤ scale + 1),
    if_pos hnormal, UnpackedFloat.unpack]
  simp only [unpackMantissa_packComponents, unpackExponent_packComponents, unpackSign_packComponents]
  rw [if_neg hlast, if_neg hfirst]
  simp only [hmantissa, hexponent, hvalue]

end Rounding

section Conversion

variable {n k : Nat}

theorem unpack_ofNat (hlo : 2 ^ 52 ≤ n * 2 ^ k) (hhi : n * 2 ^ k < 2 ^ 53) (hk : k ≤ 52) :
    (Float.ofNat n).toModel.unpack = .finite .positive (n * 2 ^ k) (-k) (by omega) := by
  have hn : n < 2 ^ 53 := Nat.lt_of_le_of_lt (Nat.le_mul_of_pos_right n (Nat.two_pow_pos k)) hhi
  have hword : n.toUInt64.toNat = n := Nat.mod_eq_of_lt (by omega)
  have hconverted : n.toUInt64.toFloat.toModel.unpack = .finite .positive (n * 2 ^ k) (-k) (by omega) := by
    show UnpackedFloat.unpack .binary64 (UnpackedFloat.pack .binary64 (UnpackedFloat.ofNat .binary64 _)) = _
    rw [hword, ofNat_exact hlo hhi hk]
    exact unpack_pack_finite .positive hlo hhi (by omega) (by omega)
  have hone : (Float.exactlyRepresentablePowersOfTen[0]).toModel.unpack =
      .finite .positive (2 ^ 52) (-(52 : Nat)) (by decide) := rfl
  have hproduct : Float.ofNat n = n.toUInt64.toFloat * Float.exactlyRepresentablePowersOfTen[0] :=
    dif_pos ⟨hn, Nat.zero_le _⟩
  rw [hproduct]
  show UnpackedFloat.unpack .binary64 (UnpackedFloat.pack .binary64 (UnpackedFloat.mul .binary64 _ _)) = _
  rw [hconverted, hone]
  show UnpackedFloat.unpack .binary64 (UnpackedFloat.pack .binary64
    (roundWithAccuracy .binary64 .positive (n * 2 ^ k * 2 ^ 52) (-k + -(52 : Nat)) .exact)) = _
  rw [← Int.sub_eq_add_neg, roundWithAccuracy_exact .positive hlo hhi (by omega) 52]
  exact unpack_pack_finite .positive hlo hhi (by omega) (by omega)

theorem ofFloat?_ofNat (hlo : 2 ^ 52 ≤ n * 2 ^ k) (hhi : n * 2 ^ k < 2 ^ 53) (hk : k ≤ 52) :
    Dyadic.ofFloat? (Float.ofNat n) = some ⟨false, n * 2 ^ k, -k⟩ := by
  rw [ofFloat?_eq, unpack_ofNat hlo hhi hk]
  rfl

theorem ofFloat?_neg_ofNat (hlo : 2 ^ 52 ≤ n * 2 ^ k) (hhi : n * 2 ^ k < 2 ^ 53) (hk : k ≤ 52) :
    Dyadic.ofFloat? (Float.ofNat n).neg = some ⟨true, n * 2 ^ k, -k⟩ := by
  have hneg : (Float.ofNat n).neg.toModel.unpack = .finite .negative (n * 2 ^ k) (-k) (by omega) := by
    show UnpackedFloat.unpack .binary64 (UnpackedFloat.pack .binary64 (Float.ofNat n).toModel.unpack.neg) = _
    rw [unpack_ofNat hlo hhi hk]
    exact unpack_pack_finite .negative hlo hhi (by omega) (by omega)
  rw [ofFloat?_eq, hneg]
  rfl

/-- The rational that the conversion of an integer gives. -/
theorem ofFloat?_ofInt {i : Int} (hlo : 2 ^ 52 ≤ i.natAbs * 2 ^ k) (hhi : i.natAbs * 2 ^ k < 2 ^ 53) (hk : k ≤ 52) :
    Dyadic.ofFloat? (Float.ofInt i) = some ⟨decide (i < 0), i.natAbs * 2 ^ k, -k⟩ := by
  cases i with
  | ofNat n => exact ofFloat?_ofNat hlo hhi hk
  | negSucc n =>
    rw [decide_eq_true (Int.negSucc_lt_zero n)]
    exact ofFloat?_neg_ofNat hlo hhi hk

end Conversion

section Integer

variable {x y : Float} {d : Dyadic} {i : Int}

/-- The rational tells all fields of a finite double. -/
theorem Dyadic.eq_of_ofUnpacked? {u w : UnpackedFloat} (hu : Dyadic.ofUnpacked? u = some d)
    (hw : Dyadic.ofUnpacked? w = some d) : u = w := by
  cases u with
  | infinity s => cases hu
  | notANumber => cases hu
  | zero s =>
    cases hu
    cases w with
    | infinity t => cases hw
    | notANumber => cases hw
    | zero t => cases s <;> cases t <;> first | rfl | cases hw
    | finite t n f hn => exact absurd (congrArg Dyadic.coefficient (Option.some.inj hw)) (Nat.ne_of_gt hn)
  | finite s m e hm =>
    cases hu
    cases w with
    | infinity t => cases hw
    | notANumber => cases hw
    | zero t => exact absurd (congrArg Dyadic.coefficient (Option.some.inj hw)).symm (Nat.ne_of_gt hm)
    | finite t n f hn => cases s <;> cases t <;> cases hw <;> rfl

/-- Doubles that are the same rational are one, bit for bit. -/
theorem eq_of_ofFloat? (hx : Dyadic.ofFloat? x = some d) (hy : Dyadic.ofFloat? y = some d) : x = y := by
  rw [ofFloat?_eq] at hx hy
  have hfields : x.toModel.unpack = y.toModel.unpack := Dyadic.eq_of_ofUnpacked? hx hy
  obtain ⟨⟨⟨b⟩, hb⟩⟩ := x
  obtain ⟨⟨⟨c⟩, hc⟩⟩ := y
  have hbits : b = c := (UnpackedFloat.unpack_inj_of_valid hb hc).1 hfields
  subst hbits
  rfl

theorem beq_self_of_isFinite (h : x.isFinite) : (x == x) = true := by
  rw [beq_self_iff]
  have hfinite : x.toModel.unpack.isFinite := h
  show x.toModel.unpack.isNaN = false
  generalize x.toModel.unpack = u at hfinite
  cases u with
  | notANumber => cases hfinite
  | _ => rfl

theorem beq_zero_iff (h : Dyadic.ofFloat? x = some d) : (x == 0) = true ↔ d.coefficient = 0 := by
  rw [beq_iff_unpack, unpack_zero]
  rw [ofFloat?_eq] at h
  generalize x.toModel.unpack = u at h
  cases u with
  | infinity s => cases h
  | notANumber => cases h
  | zero s =>
    cases h
    exact iff_of_true (.inr ⟨s, _, rfl, rfl⟩) rfl
  | finite s m e hm =>
    cases h
    exact iff_of_false (by simp) (Nat.ne_of_gt hm)

theorem Dyadic.toInt?_of_zero (h : d.coefficient = 0) : d.toInt? = some 0 := by
  simp [Dyadic.toInt?, Dyadic.ratio, h]

/-- A rational that is an integer is one by its coefficient and its exponent, with the sign it had. -/
theorem Dyadic.toInt?_eq_some (h : d.toInt? = some i) :
    d.coefficient * 2 ^ d.exponent.toNat = i.natAbs * 2 ^ (-d.exponent).toNat ∧
      (i ≠ 0 → d.negative = decide (i < 0)) := by
  simp only [Dyadic.toInt?, Dyadic.ratio, Nat.shiftLeft_eq, Nat.one_mul] at h
  split at h
  · next hmod =>
    obtain ⟨quotient, hquotient⟩ := Nat.dvd_of_mod_eq_zero hmod
    rw [hquotient, Nat.mul_div_cancel_left _ (Nat.two_pow_pos _), Option.some_inj] at h
    rw [hquotient, Nat.mul_comm]
    cases hnegative : d.negative with
    | true =>
      rw [hnegative, if_pos rfl] at h
      subst h
      exact ⟨by rw [Int.natAbs_neg, Int.natAbs_natCast], fun hi => (decide_eq_true (by omega)).symm⟩
    | false =>
      rw [hnegative, if_neg Bool.false_ne_true] at h
      subst h
      exact ⟨by rw [Int.natAbs_natCast], fun hi => (decide_eq_false (by omega)).symm⟩
  · cases h

/-- A double that is an integer with at most 53 digits has these digits, with zeros behind them, as its coefficient. -/
theorem Dyadic.eq_of_toInt? (hlt : d.coefficient < 2 ^ 53)
    (hle : d.exponent = Dyadic.minExponent ∨ 2 ^ 52 ≤ d.coefficient) (h : d.toInt? = some i) (hi : i ≠ 0)
    (hsafe : i.natAbs < 2 ^ 53) :
    ∃ k : Nat, k ≤ 52 ∧ 2 ^ 52 ≤ i.natAbs * 2 ^ k ∧ i.natAbs * 2 ^ k < 2 ^ 53 ∧
      d = ⟨decide (i < 0), i.natAbs * 2 ^ k, -k⟩ := by
  obtain ⟨heq, hsign⟩ := Dyadic.toInt?_eq_some h
  have hpos : 0 < i.natAbs := Int.natAbs_pos.2 hi
  -- an exponent above zero would make the integer too large
  have hexponent : d.exponent ≤ 0 := by
    by_contra hpositive
    have hzero : (-d.exponent).toNat = 0 := by omega
    have hlarge : 2 ^ 52 ≤ d.coefficient := hle.resolve_left (by simp only [Dyadic.minExponent]; omega)
    have htwo : 2 ^ 1 ≤ 2 ^ d.exponent.toNat := Nat.pow_le_pow_right Nat.two_pos (by omega)
    have hproduct := Nat.mul_le_mul hlarge htwo
    rw [heq, hzero] at hproduct
    omega
  obtain ⟨k, hk⟩ := Int.eq_ofNat_of_zero_le (Int.neg_nonneg_of_nonpos hexponent)
  have hzero : d.exponent.toNat = 0 := by omega
  have hcoefficient : d.coefficient = i.natAbs * 2 ^ k := by
    rw [hzero, Nat.pow_zero, Nat.mul_one, hk, Int.toNat_natCast] at heq
    exact heq
  have hpower : 2 ^ k < 2 ^ 53 := Nat.lt_of_le_of_lt (Nat.le_mul_of_pos_left _ hpos) (hcoefficient ▸ hlt)
  have hdigits : k < 53 := (Nat.pow_lt_pow_iff_right Nat.one_lt_two).1 hpower
  have hlarge : 2 ^ 52 ≤ d.coefficient := hle.resolve_left (by simp only [Dyadic.minExponent]; omega)
  refine ⟨k, by omega, hcoefficient ▸ hlarge, hcoefficient ▸ hlt, ?_⟩
  rw [← hsign hi, ← hcoefficient, ← hk, Int.neg_neg]

/-- A double that is an integer with at most 53 digits is what the integer is converted to, but for the sign of zero. -/
theorem ofInt_toInt? (hd : Dyadic.ofFloat? x = some d) (h : d.toInt? = some i) (hsafe : i.natAbs < 2 ^ 53) :
    Float.ofInt i = if x == 0 then 0 else x := by
  by_cases hi : i = 0
  · have hzero : d.coefficient = 0 := by
      have heq := (Dyadic.toInt?_eq_some h).1
      rw [hi, Int.natAbs_zero, Nat.zero_mul] at heq
      exact (Nat.mul_eq_zero.1 heq).resolve_right (Nat.ne_of_gt (Nat.two_pow_pos _))
    rw [if_pos ((beq_zero_iff hd).2 hzero), hi]
    rfl
  · obtain ⟨hlt, hle⟩ := Dyadic.canonical_of_ofFloat? hd
    obtain ⟨k, hk, hlo, hhi, rfl⟩ := Dyadic.eq_of_toInt? hlt hle h hi hsafe
    have hnonzero : i.natAbs * 2 ^ k ≠ 0 := by omega
    rw [if_neg fun hzero => hnonzero ((beq_zero_iff hd).1 hzero)]
    exact eq_of_ofFloat? (ofFloat?_ofInt hlo hhi hk) hd

end Integer

end RuleLang.Number
