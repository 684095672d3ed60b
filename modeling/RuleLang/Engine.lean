import RuleLang.Expr.Parser
import RuleLang.Options
import RuleLang.Proofs.Eval.Settling

/-!
# The engine

Tokens, expressions and values of a source text under given options. What outlives one evaluation is kept in a
`Registry`: closures belong to the evaluations that made them, and every function has a number of its own. Every
run ends, so here each has an outcome.
-/

namespace RuleLang

namespace Registry

/-- Starts an evaluation with a limit and returns its number. -/
def start (limit : Nat) : StateM Registry Nat :=
  modifyGet fun r => (r.evaluations.length, { r with evaluations := r.evaluations ++ [⟨limit, 0⟩] })

/-- Makes a run that ends part of the history. -/
def run {α : Type} (action : Run α) (h : ∀ r, (action r).isSome) : StateM Registry (Except EvalError α) :=
  modifyGet fun r => (action r).get (h r)

/-- Evaluates an expression in an evaluation that was started before. -/
def evaluate (k : Nat) (scope : Scope) (e : Expr) : StateM Registry (Except EvalError Value) :=
  run (Run.evaluate k scope e) (Run.evaluate_ends k scope e)

/-- Calls a function while no evaluation is under way. -/
def call (f : Function) (args : List Value) : StateM Registry (Except EvalError Value) :=
  run (Run.call f args) (Run.call_ends f args)

/-- Calls a builtin while no evaluation is under way; `checked` says whether the number of arguments is checked. -/
def callBuiltin (b : Builtin) (checked : Bool) (args : List Value) : StateM Registry (Except EvalError Value) :=
  run (Run.callBuiltin b checked args) (Run.callBuiltin_ends b checked args)

def newHost (behaviour : HostFunction) : StateM Registry Function :=
  modifyGet fun r => (.host r.functions behaviour, { r with functions := r.functions + 1 })

end Registry

inductive ExecError where
  | parse (e : SyntaxError)
  | eval (e : EvalError)
deriving DecidableEq, Repr

def ExecError.text : ExecError → String
  | .parse e => SyntaxError.text e
  | .eval e => e.message

namespace Options

def tokenize (o : Options) (source : String) : Except SyntaxError (List Token) :=
  (RuleLang.tokenize o.strictStrings source).mapError SyntaxError.ofLexical

def parse (o : Options) (source : String) : Except SyntaxError Expr := do
  parseTokens o.maxDepth.toNat (← o.tokenize source)

/-- The value of an expression in a context, in an evaluation of its own. -/
def evaluate (o : Options) (e : Expr) (c : Context) : StateM Registry (Except EvalError Value) := do
  Registry.evaluate (← Registry.start o.maxDepth.toNat) c.scope e

def exec (o : Options) (source : String) (c : Context) : StateM Registry (Except ExecError Value) := do
  match o.parse source with
  | .error e => return .error (.parse e)
  | .ok e => return (← o.evaluate e c).mapError .eval

end Options

end RuleLang
