import RuleLang.Entries

/-!
# JSON values

A JSON value keeps the order of an object's members and tells integers from fractions, as the text of a number
does.
-/

namespace RuleLang

inductive Json where
  | null
  | boolean (b : Bool)
  | integer (n : Int)
  | fraction (x : Float)
  | string (s : String)
  | array (items : List Json)
  | object (members : List (String × Json))

namespace Json

instance : Inhabited Json := ⟨.null⟩

def toWord? : Json → Option UInt64
  | .integer n => if 0 ≤ n ∧ n < UInt64.size then some (UInt64.ofNat n.toNat) else none
  | _ => none

def toBool? : Json → Option Bool
  | .boolean b => some b
  | _ => none

def toText? : Json → Option String
  | .string s => some s
  | _ => none

def toItems? : Json → Option (List Json)
  | .array items => some items
  | _ => none

def toMembers? : Json → Option (List (String × Json))
  | .object members => some members
  | _ => none

end Json

end RuleLang
