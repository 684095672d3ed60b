import RuleLang.Rules.Rule
import RuleLang.Text.Blank

/-!
# Expressions in forms

What a tool for forms asks of single expressions: whether the syntax of one is right, what each of several is
worth, and whether a field guarded by one is shown. All of it is done under the default options.
-/

namespace RuleLang.Form

inductive SyntaxProblem where
  | empty
  | wrong (e : SyntaxError)
deriving DecidableEq, Repr

def SyntaxProblem.text : SyntaxProblem → String
  | .empty => "expression is empty"
  | .wrong e => s!"syntax error: {SyntaxError.text e}"

/-- Checks that a text is not blank and is an expression. -/
def checkSyntax (source : String) : Except SyntaxProblem Unit :=
  if Text.allBlank source then .error .empty
  else
    match ({} : Options).parse source with
    | .ok _ => .ok ()
    | .error e => .error (.wrong e)

/-- What an expression is worth: its value, or the text of the error without one. -/
structure ExpressionResult where
  value : Option Value
  error : Option String

namespace ExpressionResult

def ofOutcome : Except ExecError Value → ExpressionResult
  | .ok v => ⟨some v, none⟩
  | .error e => ⟨none, some e.text⟩

def valid (r : ExpressionResult) : Bool :=
  r.error.isNone

/-- The JSON object of a result. What is not there is null. -/
def toJson (r : ExpressionResult) : Json :=
  .object [("value", (r.value.map Value.toJson).getD .null), ("error", (r.error.map Json.string).getD .null)]

end ExpressionResult

/-- The result of a named expression. -/
def evaluateNamed (c : Context) : String × String → StateM Registry (String × ExpressionResult)
  | (name, source) => do return (name, .ofOutcome (← ({} : Options).exec source c))

/-- Evaluates named expressions one by one. A name that occurs again keeps its first place and takes the last
result; an expression that fails has no influence on the others. -/
def evaluateAll (c : Context) (expressions : List (String × String)) :
    StateM Registry (Entries ExpressionResult) := do
  return Entries.ofList (← expressions.mapM (evaluateNamed c))

/-- Whether a field is shown: whether its condition has a value that counts as true. -/
def visible (c : Context) (condition : String) : StateM Registry Bool := do
  match ← ({} : Options).exec condition c with
  | .ok v => return v.truthy
  | .error _ => return false

end RuleLang.Form
