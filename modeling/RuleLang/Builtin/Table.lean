import RuleLang.Builtin.List
import RuleLang.Builtin.Math
import RuleLang.Builtin.Text

/-!
# The table of builtins

The builtins with their names and the numbers of arguments that they admit. A name of the table always means
the builtin; no binding hides it.
-/

namespace RuleLang

inductive Builtin where
  | abs | ceil | floor | round | sqrt | max | min | pow
  | len | upper | lower | trim | substr
  | count | sum | avg | countIf | filter | some | every | map
deriving DecidableEq, Repr

namespace Builtin

def all : List Builtin :=
  [.abs, .ceil, .floor, .round, .sqrt, .max, .min, .pow, .len, .upper, .lower, .trim, .substr,
   .count, .sum, .avg, .countIf, .filter, .some, .every, .map]

def name : Builtin → String
  | .abs => "abs"
  | .ceil => "ceil"
  | .floor => "floor"
  | .round => "round"
  | .sqrt => "sqrt"
  | .max => "max"
  | .min => "min"
  | .pow => "pow"
  | .len => "len"
  | .upper => "upper"
  | .lower => "lower"
  | .trim => "trim"
  | .substr => "substr"
  | .count => "count"
  | .sum => "sum"
  | .avg => "avg"
  | .countIf => "countIf"
  | .filter => "filter"
  | .some => "some"
  | .every => "every"
  | .map => "map"

def ofName? (s : String) : Option Builtin :=
  all.find? (·.name == s)

@[simp]
theorem ofName?_name (b : Builtin) : ofName? b.name = Option.some b := by
  cases b <;> decide

theorem name_of_ofName? {s : String} {b : Builtin} (h : ofName? s = Option.some b) : b.name = s := by
  simpa using List.find?_some h

def arity : Builtin → Arity
  | .max | .min => .any
  | .pow | .countIf | .filter | .some | .every | .map => .fixed 2
  | .substr => .range 2 3
  | _ => .fixed 1

section Run

variable {m : Type → Type} [Monad m] [MonadExceptOf EvalError m]

def run (call : Caller m) (b : Builtin) (args : List Value) : m Value :=
  match b with
  | .abs => ofExcept (onNumber b.name Float.abs args)
  | .ceil => ofExcept (onNumber b.name Float.ceil args)
  | .floor => ofExcept (onNumber b.name Float.floor args)
  | .round => ofExcept (onNumber b.name Number.roundHalfUp args)
  | .sqrt => ofExcept (onNumber b.name Float.sqrt args)
  | .max => ofExcept (extreme b.name Number.larger args)
  | .min => ofExcept (extreme b.name Number.smaller args)
  | .pow => ofExcept (power b.name args)
  | .len => return length args
  | .upper => return onText Text.upper args
  | .lower => return onText Text.lower args
  | .trim => return onText Text.trim args
  | .substr => ofExcept (substring b.name args)
  | .count => return itemCount args
  | .sum => return onItems total args
  | .avg => return onItems average args
  | .countIf => countAccepted call b.name args
  | .filter => keepAccepted call b.name args
  | .some => someAccepted call b.name args
  | .every => everyAccepted call b.name args
  | .map => mapItems call b.name args

/-- Checks the number of arguments and runs a builtin. -/
def call (caller : Caller m) (b : Builtin) (args : List Value) : m Value := do
  ofExcept (b.arity.check b.name args.length)
  b.run caller args

end Run

end Builtin

end RuleLang
