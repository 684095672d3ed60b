import RuleLang.Entries
import RuleLang.Expr.Basic

/-!
# Values

The values that expressions compute with. A map keeps its entries in order of insertion, each key once. A
function is either supplied by the host program or a closure, and carries the number under which it was made:
two functions are equal exactly when their numbers are.
-/

namespace RuleLang

inductive HostFunction where
  /-- Twice the first argument if it is a number, else zero. -/
  | double
  /-- The list of the arguments. -/
  | arguments
  /-- A greeting. -/
  | greet
  /-- Fails as if the types were wrong. -/
  | fail
  /-- Fails as if there were too many or too few arguments. -/
  | failArity
  /-- Calls the first argument with the others. -/
  | apply
  /-- Calls the first argument with the second, and again with the result. -/
  | twice
deriving DecidableEq, Repr

mutual

/-- A value. -/
inductive Value where
  | null
  | boolean (b : Bool)
  | number (x : Float)
  | string (s : String)
  | list (items : List Value)
  | map (entries : List (String × Value))
  | function (f : Function)

/-- A function. A closure remembers the evaluation that made it, by number, and the names that its body sees,
innermost first. -/
inductive Function where
  | host (id : Nat) (behaviour : HostFunction)
  | closure (id : Nat) (evaluation : Nat) (param : String) (body : Expr) (scope : List (String × Value))

end

instance : Inhabited Value := ⟨.null⟩

def Function.id : Function → Nat
  | .host id _ => id
  | .closure id .. => id

inductive ValueKind where
  | null | boolean | number | string | list | map | function
deriving DecidableEq, Repr

def ValueKind.name : ValueKind → String
  | .null => "null"
  | .boolean => "boolean"
  | .number => "number"
  | .string => "string"
  | .list => "list"
  | .map => "map"
  | .function => "function"

namespace Value

def kind : Value → ValueKind
  | .null => .null
  | .boolean _ => .boolean
  | .number _ => .number
  | .string _ => .string
  | .list _ => .list
  | .map _ => .map
  | .function _ => .function

/-- Whether a value counts as true: not null, false, zero or empty. NaN and functions count as true. -/
def truthy : Value → Bool
  | .null => false
  | .boolean b => b
  | .number x => !(x == 0)
  | .string s => !s.isEmpty
  | .list items => !items.isEmpty
  | .map entries => !entries.isEmpty
  | .function _ => true

def toNumber? : Value → Option Float
  | .number x => some x
  | _ => none

def toBool? : Value → Option Bool
  | .boolean b => some b
  | _ => none

def toText? : Value → Option String
  | .string s => some s
  | _ => none

def toItems? : Value → Option (List Value)
  | .list items => some items
  | _ => none

def toEntries? : Value → Option (Entries Value)
  | .map entries => some entries
  | _ => none

def toFunction? : Value → Option Function
  | .function f => some f
  | _ => none

end Value

end RuleLang
