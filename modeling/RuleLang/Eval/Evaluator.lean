import RuleLang.Builtin.Table
import RuleLang.Eval.Evaluation
import RuleLang.Eval.Operator

/-!
# The evaluator

`step` evaluates one expression and leaves everything inside it to its parameter. `enter` checks the depth of an
expression against the limit of its evaluation before the step. A call first evaluates its arguments; then it
stores its depth in the counter of its evaluation, runs what is called, and puts the counter back. A closure
reads the counter of the evaluation that made it and evaluates its body from that depth on.

`evaluateNode` ties the knot. Nothing in an expression bounds how deep its run nests, so the recursion is on an
amount of fuel, and a run that needs more of it has no outcome.
-/

namespace RuleLang

/-- How the parts of an expression are evaluated: an operand, the run of what is called on its arguments, and the
making of a closure from its parameter and its body. -/
structure Inside (m : Type → Type) where
  operand : Expr → m Value
  run : Builtin ⊕ Function → List Value → m Value
  close : String → Expr → m Value

/-- What a called name stands for: a builtin, or else a function that the scope binds to the name. -/
def callee (scope : Scope) (name : String) : Except EvalError (Builtin ⊕ Function) :=
  match Builtin.ofName? name with
  | some b => .ok (.inl b)
  | none =>
    match scope.lookup name with
    | some (.function f) => .ok (.inr f)
    | some v => .error (.notFunction name v.kind)
    | none => .error (.undefined name)

section Step

variable {m : Type → Type} [Monad m] [MonadExceptOf EvalError m]

/-- Follows the steps of a path from a value. A step that leads nowhere gives null, and the steps after it are
not looked at. -/
def follow (eval : Expr → m Value) : Value → List Segment → m Value
  | v, [] => return v
  | v, .property name :: rest =>
    match v.property? name with
    | some w => follow eval w rest
    | none => return .null
  | v, .index e :: rest => do
    match v.item? (← eval e) with
    | some w => follow eval w rest
    | none => return .null

def perform (eval : Evaluator m) : Builtin ⊕ Function → List Value → m Value
  | .inl b, args => b.call (Function.call eval) args
  | .inr f, args => f.call eval args

def step (inside : Inside m) (scope : Scope) : Expr → m Value
  | .number x => return .number x
  | .string s => return .string s
  | .reference root segments =>
    match scope.lookup root with
    | some v => follow inside.operand v segments
    | none => return .null
  | .unary op operand => do
    ofExcept (op.apply (← inside.operand operand))
  | .binary op left right => do
    let v ← inside.operand left
    let w ← inside.operand right
    ofExcept (op.apply v w)
  | .ternary condition yes no => do
    if (← inside.operand condition).truthy then inside.operand yes else inside.operand no
  | .call name args => do
    let f ← ofExcept (callee scope name)
    inside.run f (← args.mapM inside.operand)
  | .lambda param body => inside.close param body

end Step

section Machine

variable {m : Type → Type} [Monad m] [MonadExceptOf EvalError m] [MonadStateOf Registry m]

/-- Runs an action and returns its outcome, whether it fails or not. -/
def observe {α : Type} (action : m α) : m (Except EvalError α) :=
  tryCatch (Except.ok <$> action) fun e => return .error e

/-- Runs an action while the counter of an evaluation holds the given depth. The counter gets its value back,
whether the action fails or not. -/
def atDepth {α : Type} (k depth : Nat) (action : m α) : m α := do
  let outer ← modifyGet fun r : Registry => ((r.evaluations.get k).depth, r.setDepth k depth)
  let result ← observe action
  modify fun r : Registry => r.setDepth k outer
  ofExcept result

/-- Evaluates the body of a closure from the depth on that the counter of its evaluation holds. -/
def fromCounter (eval : (evaluation depth : Nat) → Scope → Expr → m Value) : Evaluator m := fun k scope body => do
  let r ← getThe Registry
  eval k (r.evaluations.get k).depth scope body

def newClosure (k : Nat) (scope : Scope) (param : String) (body : Expr) : m Value := do
  let id ← modifyGet fun r : Registry => (r.functions, { r with functions := r.functions + 1 })
  return .function (.closure id k param body scope)

/-- Evaluates an expression at a depth of the evaluation `k`. -/
def enter (eval : (evaluation depth : Nat) → Scope → Expr → m Value) (k depth : Nat) (scope : Scope) (e : Expr) :
    m Value := do
  let r ← getThe Registry
  let limit := (r.evaluations.get k).limit
  if depth < limit then
    step
      { operand := eval k (depth + 1) scope
        run := fun f args => atDepth k (depth + 1) (perform (fromCounter eval) f args)
        close := newClosure k scope }
      scope e
  else throw (.depthExceeded limit)

end Machine

/-- A run changes the registry, and may fail. One without an outcome has run out of fuel. -/
abbrev Run := ExceptT EvalError (StateT Registry Option)

def Run.unfinished {α : Type} : Run α := fun _ => none

/-- Evaluates an expression at a depth of the evaluation `k`, as far as the fuel reaches. -/
def evaluateNode : (fuel : Nat) → (k depth : Nat) → Scope → Expr → Run Value
  | 0, _, _, _, _ => Run.unfinished
  | fuel + 1, k, depth, scope, e => enter (evaluateNode fuel) k depth scope e

/-- Fuel for any run: one more than all limits allow together. -/
def Registry.fuel (r : Registry) : Nat :=
  r.evaluations.capacity + 1

namespace Run

/-- Evaluates an expression in the evaluation `k`, from depth zero on. -/
def evaluate (k : Nat) (scope : Scope) (e : Expr) : Run Value := do
  let r ← getThe Registry
  evaluateNode r.fuel k 0 scope e

/-- Calls functions. -/
def call (f : Function) (args : List Value) : Run Value := do
  let r ← getThe Registry
  f.call (fromCounter (evaluateNode r.fuel)) args

/-- Calls a builtin; `checked` says whether the number of arguments is checked. -/
def callBuiltin (b : Builtin) (checked : Bool) (args : List Value) : Run Value := do
  let r ← getThe Registry
  let caller := Function.call (fromCounter (evaluateNode r.fuel))
  if checked then b.call caller args else b.run caller args

end Run

end RuleLang
