/-!
# How many arguments a builtin takes
-/

namespace RuleLang

inductive Arity where
  | any
  | fixed (n : Nat)
  | range (least most : Nat)
deriving DecidableEq, Repr

namespace Arity

def admits : Arity → Nat → Bool
  | .any, _ => true
  | .fixed n, given => given == n
  | .range least most, given => least ≤ given && given ≤ most

def text : Arity → String
  | .any => "any number of arguments"
  | .fixed n => if n = 1 then "1 argument" else s!"{n} arguments"
  | .range least most => s!"{least} to {most} arguments"

end Arity

end RuleLang
