import RuleLang.Proofs.Eval.Settling

/-!
# Host functions of any kind

What a host program does inside its functions is its own affair. A `Routine` is all that the evaluator sees of it:
an outcome, or the call of a function and what is done with its outcome, or the making of a further host function.
`Hosts` says what every host function does, by its number. The evaluator under given hosts is the evaluator of the
library in all else, and under `Hosts.standard` it is that evaluator.

Nothing bounds how deep host functions call one another. So a call has fuel, and a run that needs more of it has
no outcome.
-/

namespace RuleLang

/-- What a host function does with its arguments. -/
inductive Routine where
  | done (outcome : Except EvalError Value)
  | call (f : Function) (args : List Value) (next : Except EvalError Value → Routine)
  | make (behaviour : HostFunction) (next : Function → Routine)

/-- What the host functions do, by their numbers. -/
abbrev Hosts := (id : Nat) → HostFunction → List Value → Routine

/-- Whether the error of any function that is called ends the routine as its own. -/
def Routine.ReturnsErrors : Routine → Prop
  | .done _ => True
  | .call _ _ next => (∀ e, next (.error e) = .done (.error e)) ∧ ∀ o, (next o).ReturnsErrors
  | .make _ next => ∀ f, (next f).ReturnsErrors

def Hosts.ReturnErrors (hosts : Hosts) : Prop :=
  ∀ id behaviour args, (hosts id behaviour args).ReturnsErrors

/-- Calls a function and ends with its error, or goes on with its value. -/
def Routine.andThen (f : Function) (args : List Value) (next : Value → Routine) : Routine :=
  .call f args fun
    | .ok v => next v
    | .error e => .done (.error e)

/-- The host functions of the library. -/
def HostFunction.routine : HostFunction → List Value → Routine
  | .double, args => .done (.ok (.number (match args with
    | .number x :: _ => x * 2
    | _ => 0 * 2)))
  | .arguments, args => .done (.ok (.list args))
  | .greet, _ => .done (.ok (.string "hi"))
  | .fail, _ => .done (.error .host)
  | .failArity, args => .done (.error (.hostArity args.length))
  | .apply, .function g :: rest => .call g rest .done
  | .apply, _ => .done (.ok .null)
  | .twice, .function g :: x :: _ => .andThen g [x] fun y => .call g [y] .done
  | .twice, _ => .done (.ok .null)

def Hosts.standard : Hosts := fun _ behaviour args => behaviour.routine args

theorem Hosts.standard_returnErrors : Hosts.standard.ReturnErrors := by
  intro _ behaviour args
  have hcall (g : Function) (as : List Value) : (Routine.call g as .done).ReturnsErrors :=
    ⟨fun _ => rfl, fun _ => trivial⟩
  rw [Hosts.standard]
  fun_cases HostFunction.routine behaviour args with
  | case6 g rest => exact hcall g rest
  | case8 g x =>
    refine ⟨fun _ => rfl, fun o => ?_⟩
    cases o with
    | error e => trivial
    | ok y => exact hcall g [y]
  | _ => trivial

section Calls

variable {m : Type → Type} [Monad m] [MonadExceptOf EvalError m] [MonadStateOf Registry m]

/-- Carries out a routine, given how functions are called. -/
def Routine.run (call : Caller m) : Routine → m Value
  | .done outcome => ofExcept outcome
  | .call f args next => do (next (← observe (call f args))).run call
  | .make behaviour next => do
    let id ← modifyGet fun r : Registry => (r.functions, { r with functions := r.functions + 1 })
    (next (.host id behaviour)).run call

/-- Calls what a name stands for, given how functions are called. -/
def performWith (call : Caller m) : Builtin ⊕ Function → List Value → m Value
  | .inl b, args => b.call call args
  | .inr f, args => call f args

/-- Evaluates an expression at a depth of the evaluation `k`, given how functions are called. -/
def enterWith (call : Caller m) (eval : (evaluation depth : Nat) → Scope → Expr → m Value) (k depth : Nat)
    (scope : Scope) (e : Expr) : m Value := do
  let r ← getThe Registry
  let limit := (r.evaluations.get k).limit
  if depth < limit then
    step
      { operand := eval k (depth + 1) scope
        run := fun f args => atDepth k (depth + 1) (performWith call f args)
        close := newClosure k scope }
      scope e
  else throw (.depthExceeded limit)

theorem enter_eq_enterWith (eval : (evaluation depth : Nat) → Scope → Expr → m Value) :
    enter eval = enterWith (Function.call (fromCounter eval)) eval := by
  have hperform : perform (fromCounter eval) = performWith (Function.call (fromCounter eval)) := by
    funext f args
    cases f <;> rfl
  funext k depth scope e
  rw [enter, enterWith, hperform]

end Calls

namespace Hosts

variable (hosts : Hosts)

/-- Calls a function. Host functions call one another as deep as the fuel reaches. -/
def call (eval : Evaluator Run) : (fuel : Nat) → Caller Run
  | _, .closure _ k param body scope, args => eval k (Scope.bind scope param (args.headD .null)) body
  | 0, .host .., _ => Run.unfinished
  | fuel + 1, .host id behaviour, args => (hosts id behaviour args).run (call eval fuel)

/-- Calls a function with fuel for its arguments as well: host functions that hand on ever fewer arguments need
no other. -/
def caller (eval : Evaluator Run) (fuel : Nat) : Caller Run :=
  fun f args => hosts.call eval (fuel + args.length + 1) f args

/-- Evaluates an expression at a depth of the evaluation `k`, as far as the fuel reaches. -/
def evaluateNode : (fuel : Nat) → (k depth : Nat) → Scope → Expr → Run Value
  | 0, _, _, _, _ => Run.unfinished
  | fuel + 1, k, depth, scope, e =>
    enterWith (hosts.caller (fromCounter (evaluateNode fuel)) fuel) (evaluateNode fuel) k depth scope e

end Hosts

section Standard

/-- An outcome that is only looked at is the outcome. -/
theorem Run.observe_bind {α β : Type} (x : Run α) (f : Except EvalError α → Run β) (r : Registry) :
    (observe x >>= f) r = (x r).bind fun (o, r') => f o r' := by
  show (observe x r >>= _) = _
  rw [Run.observe_eq_map]
  rcases x r with _ | ⟨_ | _, _⟩ <;> rfl

variable {eval : Evaluator Run}

theorem Routine.run_call_done (call : Caller Run) (f : Function) (args : List Value) :
    (Routine.call f args .done).run call = call f args := by
  funext r
  rw [Routine.run, Run.observe_bind]
  rcases call f args r with _ | ⟨_ | _, _⟩ <;> rfl

theorem Routine.run_andThen (call : Caller Run) (f : Function) (args : List Value) (next : Value → Routine) :
    (Routine.andThen f args next).run call = call f args >>= fun v => (next v).run call := by
  funext r
  rw [Routine.andThen, Routine.run, Run.observe_bind]
  show _ = (call f args r >>= _)
  rcases call f args r with _ | ⟨_ | _, _⟩ <;> rfl

/-- With fuel for its arguments, a function is called as the library calls it. -/
theorem Hosts.call_standard {fuel : Nat} {f : Function} {args : List Value} (h : args.length < fuel) :
    Hosts.standard.call eval fuel f args = f.call eval args := by
  induction fuel generalizing f args with
  | zero => cases h
  | succ fuel ih =>
    cases f with
    | closure => rw [Hosts.call, Function.call]
    | host id behaviour =>
      rw [Hosts.call, Hosts.standard]
      fun_cases HostFunction.routine behaviour args with
      | case6 g rest =>
        rw [Routine.run_call_done, Function.call]
        exact ih (Nat.lt_of_succ_lt_succ h)
      | case8 g x rest =>
        have hone (v : Value) : [v].length < fuel := by
          simp only [List.length_cons, List.length_nil] at h ⊢
          omega
        rw [Routine.run_andThen, Function.call, ih (hone x)]
        congr 1
        funext y
        rw [Routine.run_call_done, ih (hone y)]
      | case1 args =>
        rw [Routine.run, Function.call.eq_def]
        rfl
      | case7 args hargs =>
        rw [Routine.run, Function.call]
        · rfl
        · exact hargs
      | case9 args hargs =>
        rw [Routine.run, Function.call]
        · rfl
        · exact hargs
      | _ =>
        rw [Routine.run, Function.call]
        rfl

theorem Hosts.caller_standard (eval : Evaluator Run) (fuel : Nat) :
    Hosts.standard.caller eval fuel = Function.call eval := by
  funext f args
  exact Hosts.call_standard (by omega)

/-- Under the hosts of the library, the evaluator is that of the library. -/
theorem Hosts.evaluateNode_standard (fuel : Nat) : Hosts.standard.evaluateNode fuel = RuleLang.evaluateNode fuel := by
  induction fuel with
  | zero => rfl
  | succ fuel ih =>
    funext k depth scope e
    rw [Hosts.evaluateNode, RuleLang.evaluateNode, ih, Hosts.caller_standard, enter_eq_enterWith]

end Standard

end RuleLang
