import RuleLang.Number.Shortest

/-!
# Reading a number

A number is read from an optional sign and either a name (`inf`, `infinity`, `nan`, in letters of either case)
or decimal digits with at most one point and an optional exponent. At least one digit stands before or after
the point. The result is the double nearest to the decimal, or an infinity beyond the range of doubles.
-/

namespace RuleLang.Number

def isDigit (c : Char) : Bool :=
  '0' ≤ c && c ≤ '9'

/-- The natural number that a string of decimal digits denotes. -/
def digitsValue (cs : List Char) : Nat :=
  cs.foldl (fun n c => 10 * n + (c.toNat - '0'.toNat)) 0

/-- The double nearest to a decimal. The bounds keep the powers of ten small: a decimal from `10 ^ 310` on is
infinite, and one below `10 ^ -330` is zero. -/
def nearestFloat (d : Decimal) : Float :=
  let magnitude := digitCount d.digits + d.exponent
  if d.digits = 0 ∨ magnitude < -330 then 0
  else if 310 < magnitude then infinity
  else Float.ofScientific d.digits (d.exponent < 0) d.exponent.natAbs

/-- Reads a sign, if there is one: whether it is a minus, and what follows. -/
def readSign : List Char → Bool × List Char
  | '-' :: cs => (true, cs)
  | '+' :: cs => (false, cs)
  | cs => (false, cs)

/-- Reads an exponent that takes up all the characters; none at all is zero. -/
def readExponent? : List Char → Option Int
  | [] => some 0
  | c :: cs =>
    if c = 'e' ∨ c = 'E' then
      let (negative, digits) := readSign cs
      if digits ≠ [] ∧ digits.all isDigit then
        some (if negative then -(digitsValue digits : Int) else digitsValue digits)
      else none
    else none

/-- Reads the digits after a point, if there is one, and what follows them. -/
def readFraction : List Char → List Char × List Char
  | '.' :: cs => (cs.takeWhile isDigit, cs.dropWhile isDigit)
  | cs => ([], cs)

/-- Reads a decimal that takes up all the characters. -/
def readDecimal? (cs : List Char) : Option Decimal :=
  let whole := cs.takeWhile isDigit
  let (fraction, rest) := readFraction (cs.dropWhile isDigit)
  if whole = [] ∧ fraction = [] then none
  else (readExponent? rest).map fun exponent =>
    ⟨digitsValue (whole ++ fraction), exponent - fraction.length⟩

def readName? (cs : List Char) : Option Float :=
  match String.ofList (cs.map Char.toLower) with
  | "inf" | "infinity" => some infinity
  | "nan" => some nan
  | _ => none

def readUnsigned? (cs : List Char) : Option Float :=
  match readName? cs with
  | some x => some x
  | none => (readDecimal? cs).map nearestFloat

def read? (s : String) : Option Float :=
  let (negative, cs) := readSign s.toList
  (readUnsigned? cs).map fun x => if negative then -x else x

end RuleLang.Number
