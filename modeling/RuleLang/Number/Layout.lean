import RuleLang.Number.Shortest

/-!
# How numbers are written

A `Layout` holds every decision that the text of a finite number leaves open once its digits are known. The
library writes numbers in two layouts: `Layout.plain`, the form of literals and of numbers shown to a reader,
and `Layout.json`, the form of fractions in JSON.
-/

namespace RuleLang.Number

structure Layout where
  /-- The decimal exponents of the first digit that are written without an exponent; all, if none is given. -/
  positional : Option (Int × Int)
  /-- Whether an integer written without an exponent ends in `.0`. -/
  pointZero : Bool
  /-- Which of two equally near digit strings is written. -/
  tie : Tie

namespace Layout

/-- No exponent ever, no fraction on an integer, and of two equally near digit strings the larger. -/
def plain : Layout := ⟨none, false, .up⟩

/-- No exponent from `1e-5` to below `1e16`, always a fraction, and of two equally near digit strings the even
one. -/
def json : Layout := ⟨some (-5, 15), true, .even⟩

/-- Whether a number whose first digit has the given exponent is written without one. -/
def isPositional (l : Layout) (exponent : Int) : Bool :=
  match l.positional with
  | none => true
  | some (first, last) => first ≤ exponent && exponent ≤ last

end Layout

def digitChars (n : Nat) : List Char :=
  Nat.toDigits 10 n

def Decimal.positionalChars (d : Decimal) (pointZero : Bool) : List Char :=
  let ds := digitChars d.digits
  if 0 ≤ d.exponent then
    ds ++ List.replicate d.exponent.toNat '0' ++ (if pointZero then ['.', '0'] else [])
  else
    let places := (-d.exponent).toNat
    if places < ds.length then
      ds.take (ds.length - places) ++ '.' :: ds.drop (ds.length - places)
    else '0' :: '.' :: List.replicate (places - ds.length) '0' ++ ds

/-- A decimal written as one digit, the others after a point, and a signed exponent. -/
def Decimal.scientificChars (d : Decimal) : List Char :=
  let ds := digitChars d.digits
  let exponent := d.exponent + ds.length - 1
  let fraction := if 1 < ds.length then '.' :: ds.drop 1 else []
  let sign := if exponent < 0 then '-' else '+'
  ds.take 1 ++ fraction ++ 'e' :: sign :: digitChars exponent.natAbs

def Layout.positiveChars (l : Layout) (d : Dyadic) : List Char :=
  let decimal := shortest l.tie d
  let exponent := decimal.exponent + digitCount decimal.digits - 1
  if l.isPositional exponent then decimal.positionalChars l.pointZero else decimal.scientificChars

/-- The text of a finite number; a zero has no sign. -/
def Layout.chars (l : Layout) (d : Dyadic) : List Char :=
  if d.coefficient = 0 then if l.pointZero then ['0', '.', '0'] else ['0']
  else if d.negative then '-' :: l.positiveChars d
  else l.positiveChars d

/-- The text of a number as a literal or as shown to a reader. -/
def text (x : Float) : String :=
  match Dyadic.ofFloat? x with
  | some d => String.ofList (Layout.plain.chars d)
  | none => if x.isNaN then "NaN" else if 0 < x then "Infinity" else "-Infinity"

end RuleLang.Number
