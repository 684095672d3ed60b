/-!
# Finite doubles as dyadic rationals

Every finite double is `± coefficient · 2 ^ exponent` with a coefficient below `2 ^ 53` and an exponent from
`-1074` on. Printing, remainders and the test for integers are done on these two integers, where nothing is
rounded.
-/

namespace RuleLang.Number

def infinity : Float := 1 / 0

def nan : Float := 0 / 0

/-- The rational `± coefficient · 2 ^ exponent`; a zero keeps its sign. -/
structure Dyadic where
  negative : Bool
  coefficient : Nat
  exponent : Int
deriving DecidableEq, Repr

namespace Dyadic

def minExponent : Int := -1074

/-- The rational that a finite double is; an infinity or NaN is none. -/
def ofFloat? (x : Float) : Option Dyadic :=
  let bits := x.toBits.toNat
  let negative := bits >>> 63 == 1
  let scale := (bits >>> 52) % 2048
  let fraction := bits % (1 <<< 52)
  if scale = 2047 then none
  else if scale = 0 then some ⟨negative, fraction, minExponent⟩
  else some ⟨negative, 1 <<< 52 + fraction, scale + minExponent - 1⟩

/--
The double that a rational is. The coefficient is below `2 ^ 53`, and the exponent lies between `-1074`
and `971`, so that no rounding is needed.
-/
def toFloat (d : Dyadic) : Float :=
  let shift := min (52 - d.coefficient.log2) (d.exponent - minExponent).toNat
  let coefficient := d.coefficient <<< shift
  let scale := if coefficient < 1 <<< 52 then 0 else (d.exponent - shift - minExponent + 1).toNat
  let sign := if d.negative then 1 else 0
  Float.ofBits (UInt64.ofNat (sign <<< 63 + scale <<< 52 + coefficient % (1 <<< 52)))

/-- The magnitude of a rational as a numerator over a denominator. -/
def ratio (d : Dyadic) : Nat × Nat :=
  (d.coefficient <<< d.exponent.toNat, 1 <<< (-d.exponent).toNat)

def toInt? (d : Dyadic) : Option Int :=
  let (numerator, denominator) := d.ratio
  if numerator % denominator = 0 then
    some (if d.negative then -↑(numerator / denominator) else ↑(numerator / denominator))
  else none

end Dyadic

end RuleLang.Number
