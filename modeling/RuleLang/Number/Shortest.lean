import RuleLang.Number.Dyadic

/-!
# The shortest decimal that reads back

The reals that round to a given double form an interval around it, which holds its ends exactly when the
double's coefficient is even. For one digit, two digits and so on up to seventeen, the two decimals with that
many digits around the double are compared with the interval; the first count of digits with a hit wins, and
of two hits the nearer. `Tie` says which one is taken when both are equally near.
-/

namespace RuleLang.Number

/-- The decimal `digits · 10 ^ exponent`. -/
structure Decimal where
  digits : Nat
  exponent : Int
deriving DecidableEq, Repr

/-- Which of two equally near decimals is taken: the larger, or the one with the even last digit. -/
inductive Tie where
  | up
  | even
deriving DecidableEq, Repr

/-- How many decimal digits a natural number has; zero has one. -/
def digitCount (n : Nat) : Nat :=
  (Nat.toDigits 10 n).length

/-- The `e` with `10 ^ e ≤ numerator / denominator < 10 ^ (e + 1)`, for a positive ratio. -/
def leadingExponent (numerator denominator : Nat) : Int :=
  if denominator ≤ numerator then (digitCount (numerator / denominator) : Int) - 1
  else -(digitCount ((denominator - 1) / numerator) : Int)

/-- The reals `lower / unit` to `upper / unit` that round to the double `value / unit`. -/
structure Interval where
  lower : Nat
  value : Nat
  upper : Nat
  unit : Nat
  closed : Bool

namespace Interval

/--
The interval of a positive double. It reaches half a step up, and half a step down except below a power of
two, where the next double is twice as near.
-/
def ofDyadic (d : Dyadic) : Interval :=
  let shift := (d.exponent - 2).toNat
  let below := if d.coefficient = 1 <<< 52 ∧ Dyadic.minExponent < d.exponent then 1 else 2
  { lower := (4 * d.coefficient - below) <<< shift
    value := (4 * d.coefficient) <<< shift
    upper := (4 * d.coefficient + 2) <<< shift
    unit := 1 <<< (2 - d.exponent).toNat
    closed := d.coefficient % 2 == 0 }

def contains (i : Interval) (n : Nat) : Bool :=
  if i.closed then i.lower ≤ n && n ≤ i.upper else i.lower < n && n < i.upper

/-- The interval with its numerators and its unit scaled so that the multiples of `10 ^ exponent` are the
multiples of the unit. -/
def onGrid (i : Interval) (exponent : Int) : Interval :=
  let s := Nat.pow 10 (-exponent).toNat
  { i with lower := i.lower * s, value := i.value * s, upper := i.upper * s,
           unit := i.unit * Nat.pow 10 exponent.toNat }

/-- The multiple of the unit that is nearest to the value among its two neighbours in the interval. -/
def nearest? (i : Interval) (tie : Tie) : Option Nat :=
  let below := i.value / i.unit
  let above := below + 1
  let short := i.value - below * i.unit
  let long := above * i.unit - i.value
  match i.contains (below * i.unit), i.contains (above * i.unit) with
  | true, true =>
    if short < long then some below
    else if long < short then some above
    else match tie with
      | .up => some above
      | .even => some (if below % 2 = 0 then below else above)
  | true, false => some below
  | false, true => some above
  | false, false => none

end Interval

/-- Drops the zeros at the end of the digits; `fuel` bounds how many there can be. -/
def Decimal.stripZeros : Nat → Decimal → Decimal
  | 0, d => d
  | fuel + 1, d =>
    if d.digits ≠ 0 ∧ d.digits % 10 = 0 then stripZeros fuel ⟨d.digits / 10, d.exponent + 1⟩ else d

/-- The shortest decimal that reads back as a positive double, without zeros at its end. -/
def shortest (tie : Tie) (d : Dyadic) : Decimal :=
  let interval := Interval.ofDyadic d
  let leading := leadingExponent interval.value interval.unit
  let hit := (List.range 17).findSome? fun (n : Nat) =>
    let exponent := leading - n
    ((interval.onGrid exponent).nearest? tie).map (Decimal.mk · exponent)
  (hit.getD ⟨d.coefficient, d.exponent⟩).stripZeros 17

end RuleLang.Number
