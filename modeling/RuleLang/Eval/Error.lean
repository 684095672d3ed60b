import RuleLang.Builtin.Arity
import RuleLang.Value.Basic

/-!
# Why an evaluation fails

Each way to fail is a constructor with what its wording needs. The wording is in `EvalError.message`, and
nowhere else.
-/

namespace RuleLang

/-- The kinds of failure that a caller can tell apart. -/
inductive ErrorKind where
  | typeMismatch
  | undefinedFunction
  | arity
  | depthExceeded
deriving DecidableEq, Repr

/-- Why an evaluation fails. -/
inductive EvalError where
  /-- A minus stands in front of something that is no number. -/
  | operand (found : ValueKind)
  /-- An operator of arithmetic stands between values that are not both numbers. -/
  | operands (op : BinaryOp) (left right : ValueKind)
  /-- A builtin got an argument of the wrong kind, or none; arguments are counted from zero. -/
  | argument (builtin : String) (expected : ValueKind) (index : Nat) (found : Option ValueKind)
  /-- A context is made from something that is no object. -/
  | context (found : ValueKind)
  /-- A host function failed. -/
  | host
  /-- No function has the called name. -/
  | undefined (name : String)
  /-- The called name is that of another kind of value. -/
  | notFunction (name : String) (found : ValueKind)
  /-- A builtin got a number of arguments that it does not admit. -/
  | arity (builtin : String) (expected : Arity) (given : Nat)
  /-- A host function refused its number of arguments. -/
  | hostArity (given : Nat)
  /-- An evaluation nested deeper than its limit. -/
  | depthExceeded (limit : Nat)
deriving DecidableEq, Repr

namespace EvalError

def kind : EvalError → ErrorKind
  | .operand .. | .operands .. | .argument .. | .context .. | .host => .typeMismatch
  | .undefined .. | .notFunction .. => .undefinedFunction
  | .arity .. | .hostArity .. => .arity
  | .depthExceeded .. => .depthExceeded

/-- The name of the kind of an argument, or of its absence. -/
def foundName : Option ValueKind → String
  | some kind => kind.name
  | none => "nothing"

def message : EvalError → String
  | .operand found => s!"Operator '-' expects a number, got {found.name}"
  | .operands op left right =>
    s!"Operator '{op.symbol}' expects numbers, got {left.name} and {right.name}"
  | .argument builtin expected index found =>
    s!"\"{builtin}\" expects a {expected.name} as argument {index + 1}, got {foundName found}"
  | .context found => s!"Context must be built from an object, got {found.name}"
  | .host => "boom"
  | .undefined name => s!"Undefined function: {name}"
  | .notFunction name found => s!"{name} is not a function (found {found.name})"
  | .arity builtin expected given => s!"\"{builtin}\" expects {expected.text}, got {given}."
  | .hostArity given => s!"host got {given}"
  | .depthExceeded limit => s!"Evaluation nested deeper than {limit} levels"

end EvalError

def Arity.check (a : Arity) (builtin : String) (given : Nat) : Except EvalError Unit :=
  if a.admits given then .ok () else .error (.arity builtin a given)

end RuleLang
