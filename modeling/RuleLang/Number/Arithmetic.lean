import RuleLang.Number.Dyadic

/-!
# Arithmetic on doubles beyond the four operations

The remainder of a division truncated toward zero, rounding to an integer with halves going up, and the larger
and smaller of two numbers where a NaN gives way to a number.
-/

namespace RuleLang.Number

/-- The remainder of two rationals, with the sign of the dividend; the divisor is not zero. -/
def Dyadic.remainder (a b : Dyadic) : Dyadic :=
  let exponent := min a.exponent b.exponent
  let dividend := a.coefficient <<< (a.exponent - exponent).toNat
  let divisor := b.coefficient <<< (b.exponent - exponent).toNat
  ⟨a.negative, dividend % divisor, exponent⟩

/--
The remainder of a division truncated toward zero, without rounding. An infinite divisor leaves the dividend
as it is; an infinite dividend, a zero divisor and NaN have no remainder.
-/
def remainder (x y : Float) : Float :=
  match Dyadic.ofFloat? x, Dyadic.ofFloat? y with
  | some a, some b => if b.coefficient = 0 then nan else (a.remainder b).toFloat
  | some _, none => if y.isNaN then y else x
  | none, _ => nan

/-- The nearest integer; a half goes up. -/
def roundHalfUp (x : Float) : Float :=
  let below := x.floor
  if x - below ≥ 0.5 then below + 1 else below

/-- The larger of two numbers; a NaN gives way to the other one. -/
def larger (x y : Float) : Float :=
  if x.isNaN then y else if y.isNaN then x else if x < y then y else x

/-- The smaller of two numbers; a NaN gives way to the other one. -/
def smaller (x y : Float) : Float :=
  if x.isNaN then y else if y.isNaN then x else if y < x then y else x

/-- Truncation toward zero into the 64-bit naturals: NaN and numbers below zero go to zero, numbers out of
range to the largest natural. -/
def truncate (x : Float) : Nat :=
  x.toUInt64.toNat

end RuleLang.Number
