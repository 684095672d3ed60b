import RuleLang.Eval.Run

/-!
# Arguments of builtins

How a builtin reads its arguments, by position from zero. A number and a function must be there; anything else
than a list reads as the empty list; a text is the text of whatever is there, empty if nothing is.
-/

namespace RuleLang.Builtin

def numberAt (builtin : String) (args : List Value) (index : Nat) : Except EvalError Float :=
  match args[index]? with
  | some (.number x) => .ok x
  | found => .error (.argument builtin .number index (found.map Value.kind))

def functionAt (builtin : String) (args : List Value) (index : Nat) : Except EvalError Function :=
  match args[index]? with
  | some (.function f) => .ok f
  | found => .error (.argument builtin .function index (found.map Value.kind))

def listAt (args : List Value) (index : Nat) : List Value :=
  (args[index]?.bind Value.toItems?).getD []

def textAt (args : List Value) (index : Nat) : String :=
  (args[index]?.map Value.text).getD ""

end RuleLang.Builtin
