import RuleLang.Json.Basic

/-!
# Records in JSON

A record with named fields is kept in JSON as an object, where the order does not matter and unknown members
are passed over, or as an array of the fields in their order, of which the last ones may be missing.
-/

namespace RuleLang.Json

/-- Whether a JSON value can hold a record with the given number of fields. -/
def isRecord (size : Nat) : Json → Bool
  | .object _ => true
  | .array items => items.length ≤ size
  | _ => false

def field? (place : Nat) (name : String) : Json → Option Json
  | .object members => Entries.get? name members
  | .array items => items[place]?
  | _ => none

def fieldOr {α : Type} (default : α) (read : Json → Option α) (place : Nat) (name : String) (j : Json) :
    Option α :=
  match j.field? place name with
  | some field => read field
  | none => some default

def readField? {α : Type} (read : Json → Option α) (place : Nat) (name : String) (j : Json) : Option α :=
  (j.field? place name).bind read

end RuleLang.Json
