import RuleLang.Json.Printer
import RuleLang.Value.Basic

/-!
# Values and JSON

Every value has a JSON form, and every JSON value is the form of a value. What JSON cannot hold is lost on the
way: a function and a number that is not finite become `null`, and `-0` becomes `0`.
-/

namespace RuleLang.Value

/-- The largest magnitude, `2 ^ 53 - 1`, up to which every integer is a double of its own. -/
def maxSafeInteger : Nat := 9007199254740991

/-- The JSON form of a number: an integer if it is one of safe size. -/
def numberToJson (x : Float) : Json :=
  match Number.Dyadic.ofFloat? x with
  | none => .null
  | some d =>
    match d.toInt? with
    | some n => if n.natAbs ≤ maxSafeInteger then .integer n else .fraction x
    | none => .fraction x

mutual

def toJson : Value → Json
  | .null => .null
  | .boolean b => .boolean b
  | .number x => numberToJson x
  | .string s => .string s
  | .list items => .array (itemsToJson items)
  | .map entries => .object (entriesToJson entries)
  | .function _ => .null

def itemsToJson : List Value → List Json
  | [] => []
  | v :: vs => toJson v :: itemsToJson vs

def entriesToJson : List (String × Value) → List (String × Json)
  | [] => []
  | (key, v) :: rest => (key, toJson v) :: entriesToJson rest

end

mutual

def ofJson : Json → Value
  | .null => .null
  | .boolean b => .boolean b
  | .integer n => .number (Float.ofInt n)
  | .fraction x => .number x
  | .string s => .string s
  | .array items => .list (itemsOfJson items)
  | .object members => .map (entriesOfJson members)

def itemsOfJson : List Json → List Value
  | [] => []
  | j :: js => ofJson j :: itemsOfJson js

def entriesOfJson : List (String × Json) → List (String × Value)
  | [] => []
  | (key, j) :: rest => (key, ofJson j) :: entriesOfJson rest

end

/-- A value as it is shown to a reader: a string as it is, a list or a map in JSON. -/
def text : Value → String
  | .null => "null"
  | .boolean b => if b then "true" else "false"
  | .number x => Number.text x
  | .string s => s
  | .list items => (toJson (.list items)).text
  | .map entries => (toJson (.map entries)).text
  | .function _ => "[function]"

end RuleLang.Value
