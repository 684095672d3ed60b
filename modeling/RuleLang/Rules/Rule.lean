import RuleLang.Engine

/-!
# Rules

A rule is an expression that the answers to a form must satisfy. Nothing that goes wrong in a rule reaches the
caller: a rule that cannot be parsed or evaluated is a rule that does not pass.
-/

namespace RuleLang

/-- A named rule, with the message for answers that break it. -/
structure Rule where
  name : String
  message : String
  expression : String
deriving DecidableEq, Repr

/-- Whether an outcome is the truth value true. Values that merely count as true do not pass. -/
def isTrue : Except ExecError Value → Bool
  | .ok (.boolean b) => b
  | _ => false

/-- Whether answers satisfy a rule. -/
def Rule.passes (o : Options) (c : Context) (rule : Rule) : StateM Registry Bool := do
  return isTrue (← o.exec rule.expression c)

structure Violation where
  rule : String
  message : String
deriving DecidableEq, Repr

/-- The rules that were broken, in the order of the rules. -/
structure Report where
  violations : List Violation
deriving DecidableEq, Repr

def Report.valid (r : Report) : Bool :=
  r.violations.isEmpty

structure RuleSet where
  options : Options := {}
  rules : List Rule := []
deriving DecidableEq, Repr

namespace RuleSet

def validate (s : RuleSet) (c : Context) : StateM Registry Report := do
  let broken ← s.rules.filterM fun rule => do return !(← rule.passes s.options c)
  return ⟨broken.map fun rule => ⟨rule.name, rule.message⟩⟩

end RuleSet

end RuleLang
