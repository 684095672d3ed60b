import RuleLang.Builtin.Argument
import RuleLang.Number.Arithmetic

/-!
# Builtins on numbers
-/

namespace RuleLang.Builtin

def onNumber (builtin : String) (f : Float → Float) (args : List Value) : Except EvalError Value := do
  return .number (f (← numberAt builtin args 0))

def power (builtin : String) (args : List Value) : Except EvalError Value := do
  let base ← numberAt builtin args 0
  let exponent ← numberAt builtin args 1
  return .number (base.pow exponent)

/-- All arguments as numbers; the first that is none fails. -/
def allNumbers (builtin : String) (args : List Value) : Except EvalError (List Float) :=
  (List.range args.length).mapM (numberAt builtin args)

/-- The argument that wins against all others, or null without arguments. -/
def extreme (builtin : String) (pick : Float → Float → Float) (args : List Value) :
    Except EvalError Value := do
  match ← allNumbers builtin args with
  | [] => return .null
  | x :: xs => return .number (xs.foldl pick x)

end RuleLang.Builtin
