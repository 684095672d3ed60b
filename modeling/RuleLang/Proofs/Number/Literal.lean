import RuleLang.Number.Layout
import RuleLang.Number.Reading

/-!
# Numbers as literals

A double that is finite and not negative is written with digits and at most one point, and doubles that are equal
as numbers are written alike. Both go through the fields of a double: `Dyadic.ofFloat?` reads them off the bits,
and the comparison of doubles is defined on them.
-/

namespace RuleLang.Number

open Float.Model Float.Model.UnpackedFloat

def Dyadic.ofUnpacked? : UnpackedFloat → Option Dyadic
  | .finite s m e _ => some ⟨s == .negative, m, e⟩
  | .zero s => some ⟨s == .negative, 0, minExponent⟩
  | _ => none

theorem Dyadic.ofUnpacked?_finite (s : Sign) (m : Nat) (e : Int) (h : 0 < m) :
    Dyadic.ofUnpacked? (.finite s m e h) = some ⟨s == .negative, m, e⟩ :=
  rfl

section Bits

variable (b : BitVec 64)

theorem toNat_unpackMantissa : (@unpackMantissa .binary64 b).toNat = b.toNat % 1 <<< 52 := by
  simp [unpackMantissa]

theorem toNat_unpackExponent : (@unpackExponent .binary64 b).toNat = (b.toNat >>> 52) % 2048 := by
  simp [unpackExponent]

theorem negative_eq_unpackSign :
    (b.toNat >>> 63 == 1) = (Sign.ofBitVec (@unpackSign .binary64 b) == .negative) := by
  have hlt : b.toNat < 2 ^ 64 := b.isLt
  have hnat : (@unpackSign .binary64 b).toNat = b.toNat >>> 63 := by
    delta unpackSign
    simp
    omega
  rw [← hnat]
  generalize @unpackSign .binary64 b = s
  revert s
  decide

/-- A normal double has a one before the digits of its mantissa. -/
theorem toNat_leading_unpackMantissa :
    (1#1 ++ @unpackMantissa .binary64 b).toNat = 1 <<< 52 + (@unpackMantissa .binary64 b).toNat := by
  rw [BitVec.toNat_append, Nat.shiftLeft_add_eq_or_of_lt (BitVec.isLt _)]
  rfl

end Bits

/-- The fields of a double are the parts of its bits. -/
theorem ofFloat?_eq (x : Float) : Dyadic.ofFloat? x = Dyadic.ofUnpacked? x.toModel.unpack := by
  have hbits : x.toBits.toNat = x.toModel.toBits.toBitVec.toNat := rfl
  simp only [Dyadic.ofFloat?, hbits, Float.Model.unpack]
  generalize x.toModel.toBits.toBitVec = b
  rw [negative_eq_unpackSign, ← toNat_unpackExponent, ← toNat_unpackMantissa]
  delta UnpackedFloat.unpack
  by_cases hinf : @unpackExponent .binary64 b = -1#_
  · have hinf' : (@unpackExponent .binary64 b).toNat = 2047 := by
      rw [hinf]
      rfl
    rw [if_pos hinf', if_pos hinf]
    by_cases hzero : @unpackMantissa .binary64 b = 0#_
    · rw [if_pos hzero]
      rfl
    · rw [if_neg hzero]
      rfl
  · have hinf' : (@unpackExponent .binary64 b).toNat ≠ 2047 := fun h => hinf (BitVec.eq_of_toNat_eq h)
    rw [if_neg hinf', if_neg hinf]
    by_cases hsub : @unpackExponent .binary64 b = 0#_
    · have hsub' : (@unpackExponent .binary64 b).toNat = 0 := by
        rw [hsub]
        rfl
      rw [if_pos hsub', if_pos hsub]
      by_cases hzero : @unpackMantissa .binary64 b = 0#_
      · rw [dif_pos hzero, hzero]
        rfl
      · rw [dif_neg hzero, Dyadic.ofUnpacked?_finite, hsub']
        rfl
    · have hsub' : (@unpackExponent .binary64 b).toNat ≠ 0 := fun h => hsub (BitVec.eq_of_toNat_eq h)
      have hscale (n : Nat) : (n : Int) + Dyadic.minExponent - 1 =
          n - (Format.binary64.exponentBias + Format.binary64.mantissaBitsWithoutImplicit) := by
        simp only [Dyadic.minExponent, Format.exponentBias]
        omega
      rw [if_neg hsub', if_neg hsub, Dyadic.ofUnpacked?_finite, toNat_leading_unpackMantissa, hscale]

theorem eq_of_compare_then {m n : Nat} {d e : Int} (h : (compare d e).then (compare m n) = .eq) :
    m = n ∧ d = e := by
  rw [Ordering.then_eq_eq, Int.compare_eq_eq, Nat.compare_eq_eq] at h
  exact ⟨h.2, h.1⟩

/-- Doubles that compare as equal are the same, or both are zero. -/
theorem eq_or_zero_of_compare {a b : UnpackedFloat} (h : a.compare b = some .eq) :
    a = b ∨ ∃ s t, a = .zero s ∧ b = .zero t := by
  cases a with
  | notANumber => cases h
  | infinity s =>
    cases b with
    | infinity t => cases s <;> cases t <;> first | exact .inl rfl | cases h
    | notANumber => cases h
    | zero t => cases s <;> cases h
    | finite t n e hn => cases s <;> cases h
  | zero s =>
    cases b with
    | zero t => exact .inr ⟨s, t, rfl, rfl⟩
    | infinity t => cases t <;> cases h
    | notANumber => cases h
    | finite t n e hn => cases t <;> cases h
  | finite s m d hm =>
    cases b with
    | finite t n e hn =>
      cases s with
      | positive =>
        cases t with
        | positive =>
          obtain ⟨rfl, rfl⟩ := eq_of_compare_then (Option.some.inj h)
          exact .inl rfl
        | negative => cases h
      | negative =>
        cases t with
        | positive => cases h
        | negative =>
          obtain ⟨rfl, rfl⟩ := eq_of_compare_then (Ordering.swap_eq_eq.1 (Option.some.inj h))
          exact .inl rfl
    | zero t => cases s <;> cases h
    | infinity t => cases s <;> cases t <;> cases h
    | notANumber => cases s <;> cases h

theorem compare_self_iff {a : UnpackedFloat} : a.compare a = some .eq ↔ a.isNaN = false := by
  cases a with
  | notANumber => decide
  | infinity s => cases s <;> decide
  | zero s => exact ⟨fun _ => rfl, fun _ => rfl⟩
  | finite s m e hm =>
    have hcompare : (compare e e).then (compare m m) = .eq := by
      rw [Ordering.then_eq_eq, Int.compare_eq_eq, Nat.compare_eq_eq]
      exact ⟨rfl, rfl⟩
    cases s with
    | positive => exact ⟨fun _ => rfl, fun _ => congrArg some hcompare⟩
    | negative => exact ⟨fun _ => rfl, fun _ => congrArg some (Ordering.swap_eq_eq.2 hcompare)⟩

theorem beq_iff_compare {x y : Float} :
    (x == y) = true ↔ x.toModel.unpack.compare y.toModel.unpack = some .eq := by
  show (x.toModel.unpack.compare y.toModel.unpack == some .eq) = true ↔ _
  exact beq_iff_eq

theorem eq_or_zero_of_beq {x y : Float} (h : (x == y) = true) :
    x.toModel.unpack = y.toModel.unpack ∨ ∃ s t, x.toModel.unpack = .zero s ∧ y.toModel.unpack = .zero t :=
  eq_or_zero_of_compare (beq_iff_compare.1 h)

/-- A double equals itself unless it is a NaN. -/
theorem beq_self_iff {x : Float} : (x == x) = true ↔ x.isNaN = false :=
  beq_iff_compare.trans compare_self_iff

/-- Two doubles are equal if they are the same and no NaN, or if both are zero. -/
theorem beq_iff_unpack {x y : Float} : (x == y) = true ↔
    (x.toModel.unpack = y.toModel.unpack ∧ x.isNaN = false) ∨
      ∃ s t, x.toModel.unpack = .zero s ∧ y.toModel.unpack = .zero t := by
  rw [beq_iff_compare]
  constructor
  · intro h
    rcases eq_or_zero_of_compare h with heq | hzero
    · rw [← heq] at h
      exact .inl ⟨heq, compare_self_iff.1 h⟩
    · exact .inr hzero
  · intro h
    rcases h with ⟨heq, hnan⟩ | ⟨s, t, hx, hy⟩
    · rw [← heq]
      exact compare_self_iff.2 hnan
    · rw [hx, hy]
      rfl

theorem beq_symm {x y : Float} (h : (x == y) = true) : (y == x) = true := by
  rw [beq_iff_unpack] at h ⊢
  rcases h with ⟨heq, hnan⟩ | ⟨s, t, hx, hy⟩
  · have hnan' : y.isNaN = x.isNaN := congrArg UnpackedFloat.isNaN heq.symm
    exact .inl ⟨heq.symm, hnan'.trans hnan⟩
  · exact .inr ⟨t, s, hy, hx⟩

theorem beq_trans {x y z : Float} (hxy : (x == y) = true) (hyz : (y == z) = true) : (x == z) = true := by
  rw [beq_iff_unpack] at hxy hyz ⊢
  rcases hxy with ⟨heq, hnan⟩ | ⟨s, t, hx, hy⟩
  · rw [heq]
    exact hyz.imp_left fun h => ⟨h.1, hnan⟩
  · rcases hyz with ⟨heq, -⟩ | ⟨-, t', -, hz⟩
    · exact .inr ⟨s, t, hx, heq.symm.trans hy⟩
    · exact .inr ⟨s, t', hx, hz⟩

theorem lt_iff_unpack {x y : Float} : x < y ↔ x.toModel.unpack.lt y.toModel.unpack :=
  decide_eq_true_iff

theorem le_iff_unpack {x y : Float} : x ≤ y ↔ x.toModel.unpack.le y.toModel.unpack :=
  decide_eq_true_iff

theorem unpack_zero : (0 : Float).toModel.unpack = .zero .positive := by
  rfl

/-- Numbers that are equal as numbers are written alike. -/
theorem text_eq_of_beq {x y : Float} (h : (x == y) = true) : text x = text y := by
  rcases eq_or_zero_of_beq h with heq | ⟨s, t, hx, hy⟩
  · have hnan : x.isNaN = y.isNaN := congrArg UnpackedFloat.isNaN heq
    have hpos : 0 < x ↔ 0 < y := by rw [lt_iff_unpack, lt_iff_unpack, heq]
    simp only [text, ofFloat?_eq, heq, hnan, hpos]
  · rw [text, text, ofFloat?_eq, ofFloat?_eq, hx, hy]
    rfl

/-- Digits, with a point and more digits behind them or not. -/
def IsNumeral (cs : List Char) : Prop :=
  ∃ whole fraction, cs = whole ++ fraction ∧ whole ≠ [] ∧ (∀ c ∈ whole, isDigit c) ∧
    (fraction = [] ∨ ∃ ds, fraction = '.' :: ds ∧ ∀ c ∈ ds, isDigit c)

theorem isDigit_of_mem_digitChars {n : Nat} {c : Char} (h : c ∈ digitChars n) : isDigit c := by
  have hdigit := Nat.isDigit_of_mem_toDigits (by decide) (by decide) h
  rw [Char.isDigit, Bool.and_eq_true, decide_eq_true_eq, decide_eq_true_eq] at hdigit
  exact Bool.and_eq_true_iff.2 ⟨decide_eq_true hdigit.1, decide_eq_true hdigit.2⟩

theorem isDigit_of_mem_zero : ∀ c ∈ ['0'], isDigit c := by
  intro c hc
  rw [List.mem_singleton.1 hc]
  rfl

theorem isNumeral_positionalChars (d : Decimal) : IsNumeral (d.positionalChars false) := by
  have hdigits : ∀ c ∈ digitChars d.digits, isDigit c := fun c hc => isDigit_of_mem_digitChars hc
  have hzeros (n : Nat) : ∀ c ∈ List.replicate n '0', isDigit c := by
    intro c hc
    rw [List.eq_of_mem_replicate hc]
    rfl
  simp only [Decimal.positionalChars]
  split
  · refine ⟨digitChars d.digits ++ List.replicate d.exponent.toNat '0', [], rfl, ?_, ?_, .inl rfl⟩
    · exact List.append_ne_nil_of_left_ne_nil Nat.toDigits_ne_nil _
    · intro c hc
      exact (List.mem_append.1 hc).elim (hdigits c) (hzeros _ c)
  split
  · next hlt =>
    refine ⟨_, _, rfl, ?_, fun c hc => hdigits c (List.mem_of_mem_take hc), .inr ⟨_, rfl, ?_⟩⟩
    · rw [ne_eq, List.take_eq_nil_iff]
      rintro (h | h)
      · omega
      · exact Nat.toDigits_ne_nil h
    · exact fun c hc => hdigits c (List.mem_of_mem_drop hc)
  · refine ⟨['0'], _, rfl, by simp, isDigit_of_mem_zero, .inr ⟨_, rfl, ?_⟩⟩
    intro c hc
    exact (List.mem_append.1 hc).elim (hzeros _ c) (hdigits c)

/-- A number as it may stand in an expression. The last condition is what a standard library promises of the
text of a number. -/
structure IsLiteral (x : Float) : Prop where
  finite : x.isFinite
  nonneg : 0 ≤ x
  reads_back : ∃ y, read? (text x) = some y ∧ y == x

/-- A finite number that is not negative is written as a numeral. -/
theorem IsLiteral.isNumeral_text {x : Float} (h : IsLiteral x) : IsNumeral (text x).toList := by
  have hfinite : x.toModel.unpack.isFinite := h.finite
  have hnonneg := le_iff_unpack.1 h.nonneg
  rw [unpack_zero] at hnonneg
  rw [text, ofFloat?_eq]
  cases hx : x.toModel.unpack with
  | infinity s =>
    rw [hx] at hfinite
    exact absurd hfinite Bool.false_ne_true
  | notANumber =>
    rw [hx] at hfinite
    exact absurd hfinite Bool.false_ne_true
  | zero s => exact ⟨['0'], [], String.toList_ofList, by simp, isDigit_of_mem_zero, .inl rfl⟩
  | finite s m e hm =>
    rw [hx] at hnonneg
    cases s with
    | negative => cases hnonneg
    | positive =>
      have hchars : Layout.plain.chars ⟨false, m, e⟩ = (shortest .up ⟨false, m, e⟩).positionalChars false := by
        rw [Layout.chars, if_neg (Nat.ne_of_gt hm)]
        rfl
      show IsNumeral (String.ofList (Layout.plain.chars ⟨false, m, e⟩)).toList
      rw [String.toList_ofList, hchars]
      exact isNumeral_positionalChars _

end RuleLang.Number
