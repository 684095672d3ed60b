import RuleLang.Builtin.Argument
import RuleLang.Number.Arithmetic
import RuleLang.Text.Blank
import RuleLang.Text.Case

/-!
# Builtins on texts

Every text argument is taken as it is shown to a reader, so that `upper(5)` is `"5"` and `len(null)` is `4`.
-/

namespace RuleLang.Builtin

def length (args : List Value) : Value :=
  .number (Float.ofNat (textAt args 0).length)

/-- Applies a function to the text of the first argument. -/
def onText (f : String → String) (args : List Value) : Value :=
  .string (f (textAt args 0))

/-- A number as a count of characters: truncated toward zero, at least zero and at most `limit`. -/
def clamp (x : Float) (limit : Nat) : Nat :=
  min (Number.truncate x) limit

/-- Where the part of a text of `size` characters that the arguments ask for starts and stops. It starts at the
second argument and is as long as the third, or reaches the end without a third, but does not run past the end. -/
def bounds (builtin : String) (args : List Value) (size : Nat) : Except EvalError (Nat × Nat) := do
  let start := clamp (← numberAt builtin args 1) size
  let count ←
    match args[2]? with
    | some _ => (clamp · size) <$> numberAt builtin args 2
    | none => pure (size - start)
  return (start, min (start + count) size)

/-- The part of the first argument between the bounds that the other arguments set. -/
def substring (builtin : String) (args : List Value) : Except EvalError Value := do
  let cs := (textAt args 0).toList
  let (start, stop) ← bounds builtin args cs.length
  return .string (String.ofList (cs.extract start stop))

end RuleLang.Builtin
