import RuleLang.Context

/-!
# Running functions

What the host functions and the builtins do, in any monad in which an evaluation may fail. The bodies of closures
are evaluated by a parameter.
-/

namespace RuleLang

/-- Evaluates an expression as part of the evaluation with the given number. -/
abbrev Evaluator (m : Type → Type) := (evaluation : Nat) → Scope → Expr → m Value

abbrev Caller (m : Type → Type) := Function → List Value → m Value

/--
Calls a function. A closure binds its parameter to the first argument, or to null without one. A host function
that calls another does so with fewer arguments than it got, so calls among host functions end.
-/
def Function.call {m : Type → Type} [Monad m] [MonadExceptOf EvalError m] (eval : Evaluator m) (f : Function)
    (args : List Value) : m Value :=
  match f with
  | .closure _ evaluation param body scope => eval evaluation (Scope.bind scope param (args.headD .null)) body
  | .host _ .double =>
    return .number (match args with
      | .number x :: _ => x * 2
      | _ => 0 * 2)
  | .host _ .arguments => return .list args
  | .host _ .greet => return .string "hi"
  | .host _ .fail => throw .host
  | .host _ .failArity => throw (.hostArity args.length)
  | .host _ .apply =>
    match args with
    | .function g :: rest => g.call eval rest
    | _ => return .null
  | .host _ .twice =>
    match args with
    | .function g :: x :: _ => do
      let y ← g.call eval [x]
      g.call eval [y]
    | _ => return .null
termination_by args.length

end RuleLang
