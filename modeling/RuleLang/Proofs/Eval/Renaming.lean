import Mathlib
import RuleLang.Proofs.Eval.Outcome
import RuleLang.Proofs.Expr.Alpha

/-!
# The names of parameters do not matter

Expressions that are the same but for the names of parameters evaluate alike, in scopes that bind corresponding names
to like values: the outcomes are errors of one kind, or values whose closures are again the same but for the names of
parameters. The errors themselves may differ, as the name of what is called without being a function is part of one.
-/

namespace RuleLang

/-- Errors that a caller cannot tell apart without reading their text. -/
def EvalError.SameKind (e e' : EvalError) : Prop :=
  e.kind = e'.kind

theorem EvalError.SameKind.refl (e : EvalError) : e.SameKind e :=
  rfl

/-- Host functions that look at functions only by calling and comparing them, and at errors only by their kind. -/
def Hosts.Reserved (hosts : Hosts) : Prop :=
  ∀ (F : Function → Function → Prop), (∀ f g, F f g → f.id = g.id) →
    ∀ id behaviour args args', Paired (Value.Related F) args args' →
      Routine.Like EvalError.SameKind F (hosts id behaviour args) (hosts id behaviour args')

theorem Hosts.standard_reserved : Hosts.standard.Reserved :=
  fun _ _ _ behaviour _ _ h => (behaviour.routine_matches EvalError.SameKind.refl h).like

/--
The same function, or closures made from the number `first` on whose bodies are the same but for names: the
parameters correspond, and so do names that are bound to like values.
-/
inductive Function.Renamed (first : Nat) : Function → Function → Prop
  | same (f : Function) : Renamed first f f
  | closure {id k : Nat} {p p' : String} {b b' : Expr} {scope scope' : List (String × Value)}
      {N : String → String → Prop} :
      first ≤ id → Expr.Alpha (Rebound N p p') b b' →
      (∀ n n', N n n' →
        Option.Rel (Value.Related (Renamed first)) (Entries.get? n scope) (Entries.get? n' scope')) →
      Renamed first (.closure id k p b scope) (.closure id k p' b' scope')

/-- Values of the same shape whose functions are the same but for the names of parameters. -/
abbrev Value.Renamed (first : Nat) : Value → Value → Prop :=
  Value.Related (Function.Renamed first)

/-- Scopes that bind corresponding names to like values. -/
def Scope.Renamed (first : Nat) (N : String → String → Prop) (scope scope' : Scope) : Prop :=
  ∀ n n', N n n' → Option.Rel (Value.Renamed first) (scope.lookup n) (scope'.lookup n')

section Renaming

variable {first : Nat} {N : String → String → Prop} {scope scope' : Scope}

theorem Function.Renamed.id_eq {f g : Function} (h : Function.Renamed first f g) : f.id = g.id := by
  cases h <;> rfl

theorem Scope.Renamed.self (first : Nat) (scope : Scope) : Scope.Renamed first Eq scope scope := by
  intro n n' hn
  subst hn
  exact Entries.get?_related (entries_related_refl Function.Renamed.same scope) n

/-- Inside lambdas the parameters correspond. -/
theorem Scope.Renamed.bind (h : Scope.Renamed first N scope scope') (p p' : String) {v w : Value}
    (hvw : Value.Renamed first v w) :
    Scope.Renamed first (Rebound N p p') (scope.bind p v) (scope'.bind p' w) := by
  intro n n' hn
  simp only [Scope.lookup, Scope.bind, Entries.get?]
  obtain ⟨rfl, rfl⟩ | ⟨hp, hp', hn⟩ := hn
  · simp only [↓reduceIte]
    exact .some hvw
  · rw [if_neg (Ne.symm hp), if_neg (Ne.symm hp')]
    exact h n n' hn

/-- Expressions that are the same but for names find like things in scopes that bind corresponding names alike. -/
theorem Expr.Alpha.corresponds {e e' : Expr} (h : Expr.Alpha N e e') (hscope : Scope.Renamed first N scope scope') :
    Expr.Corresponds EvalError.SameKind (Function.Renamed first) scope scope' (Expr.Alpha N) e e' := by
  cases h with
  | number x => exact .number x
  | string s => exact .string s
  | reference hroot hsegments => exact .reference (hscope _ _ hroot) hsegments.paired
  | unary op hx => exact .unary op hx
  | binary op hx hy => exact .binary op hx hy
  | ternary hc hx hy => exact .ternary hc hx hy
  | call hbuiltin hname hargs =>
    have hlookup := fun hnone => hscope _ _ (hname hnone)
    exact .call (callee_like EvalError.SameKind.refl hbuiltin rfl (fun _ => rfl) hlookup _) hargs.paired
  | lambda => exact .lambda ..

/-- Places are alike if the expressions are the same but for names that are bound alike. -/
def Likeness.renamed (first : Nat) : Likeness EvalError.SameKind Eq first 0 where
  function := Function.Renamed first
  place k k' scope scope' e e' := k = k' ∧ ∃ N, Expr.Alpha N e e' ∧ Scope.Renamed first N scope scope'
  mismatch _ := rfl
  depthExceeded _ := rfl
  faithful := .of_id_eq fun _ _ => Function.Renamed.id_eq
  host h := by
    cases h
    exact ⟨_, rfl⟩
  closure h := by
    cases h with
    | @same =>
      refine ⟨_, _, _, _, _, rfl, fun _ _ hab => ?_⟩
      exact ⟨rfl, _, .self fun n _ => Rebound.self fun _ => rfl, (Scope.Renamed.self first _).bind _ _ hab⟩
    | closure _ hbody hscope =>
      exact ⟨_, _, _, _, _, rfl, fun _ _ hab => ⟨rfl, _, hbody, Scope.Renamed.bind hscope _ _ hab⟩⟩
  newHost _ _ _ behaviour := .same (.host _ behaviour)
  newClosure := by
    intro id hid k k' scope scope' p p' b b' h
    obtain ⟨rfl, N, hlambda, hscope⟩ := h
    cases hlambda with
    | lambda hbody => exact .closure hid hbody hscope
  evaluation h := h.1
  corresponds := by
    intro k k' scope scope' e e' h
    obtain ⟨hk, N, he, hscope⟩ := h
    exact (he.corresponds hscope).mono fun _ _ hx => ⟨hk, N, hx, hscope⟩

theorem Hosts.Reserved.admits {hosts : Hosts} (h : hosts.Reserved) : (Likeness.renamed first).Admits False hosts where
  like hfg args args' hargs := by
    have hid (f g : Function) : Function.Renamed first f g → f.id = g.id := Function.Renamed.id_eq
    obtain rfl := hid _ _ hfg
    exact (h _ hid _ _ args args' hargs).matches hid
  returnErrors := False.elim

/-- Expressions that are the same but for the names of parameters have like outcomes in every context. -/
theorem Hosts.gives_of_alpha {hosts : Hosts} (hhosts : hosts.Reserved) {e e' : Expr} (he : Expr.Alpha Eq e e')
    (limit : Nat) (c : Context) (r : Registry) :
    EndsAlike False (Outcome.Like EvalError.SameKind (Value.Renamed r.functions)) (hosts.Gives limit c e r)
      (hosts.Gives limit c e' r) :=
  gives_endsAlike (A := .renamed r.functions) hhosts.admits (.refl _) ⟨rfl, Eq, he, .self r.functions c.scope⟩

/-- Functions that are the same but for the names of parameters do alike, whenever they are called. -/
theorem Hosts.calls_of_renamed {hosts : Hosts} (hhosts : hosts.Reserved) {f g : Function}
    (hfg : Function.Renamed first f g) {args args' : List Value} (hargs : Paired (Value.Renamed first) args args')
    {r : Registry} (hr : first ≤ r.functions) :
    EndsAlike False (Outcome.Like EvalError.SameKind (Value.Renamed first)) (hosts.Calls f args r)
      (hosts.Calls g args' r) :=
  calls_endsAlike (A := .renamed first) hhosts.admits (.refl r.evaluations) hr hfg hargs

end Renaming

/--
The parameter of a lambda anywhere in an expression may be renamed to a name that does not occur in its body and is
no builtin's. In every context and under every limit the outcome is an error of the same kind, or the same value but
for the names of parameters in the closures that the evaluation makes; and these closures do alike whenever they are
called. This holds under all host functions that look at functions only by calling and comparing them, and at errors
only by their kind.
-/
theorem Registry.outcome_rename (hole : Expr.Hole) {x y : String} {b : Expr} (hfresh : y ∉ b.names)
    (hbuiltin : Builtin.ofName? y = none) (r : Registry) (limit : Nat) (c : Context) :
    let e := hole.fill (.lambda x b)
    let e' := hole.fill (.lambda y (b.rename x y))
    Outcome.Like EvalError.SameKind (Value.Renamed r.functions) (r.outcome limit c e) (r.outcome limit c e') ∧
    ∀ hosts : Hosts, hosts.Reserved →
      EndsAlike False (Outcome.Like EvalError.SameKind (Value.Renamed r.functions)) (hosts.Gives limit c e r)
        (hosts.Gives limit c e' r) ∧
      ∀ (r' : Registry) (f g : Function) (args args' : List Value), r.functions ≤ r'.functions →
        Function.Renamed r.functions f g → Paired (Value.Renamed r.functions) args args' →
        EndsAlike False (Outcome.Like EvalError.SameKind (Value.Renamed r.functions)) (hosts.Calls f args r')
          (hosts.Calls g args' r') := by
  intro e e'
  have he : Expr.Alpha Eq e e' :=
    hole.alpha_fill (fun N hN => Expr.alpha_lambda hN hfresh hbuiltin) fun _ => rfl
  have hgives {hosts : Hosts} (hhosts : hosts.Reserved) := Hosts.gives_of_alpha hhosts he limit c r
  constructor
  · have houtcome := (hgives Hosts.standard_reserved).outcome Hosts.standard_gives_iff Hosts.standard_gives_iff
    exact houtcome.resolve_left fun hlax => hlax.1
  · intro hosts hhosts
    exact ⟨hgives hhosts, fun r' f g args args' hr hfg hargs => Hosts.calls_of_renamed hhosts hfg hargs hr⟩

/-- A lambda that calls its parameter with one that binds the name again. On a string it fails either way, and the
errors differ in the name; a host function is called either way. -/
theorem Registry.outcome_rename_call :
    let r := Registry.empty
    let c := Context.empty.bind "items" (.list [.string "a"])
    let b : Expr := .call "x" [.lambda "x" (.reference "x" [])]
    let b' : Expr := .call "y" [.lambda "x" (.reference "x" [])]
    let e : Expr := .call "map" [.reference "items" [], .lambda "x" b]
    let e' : Expr := .call "map" [.reference "items" [], .lambda "y" b']
    let f := Function.closure 0 0 "x" b []
    let g := Function.closure 0 0 "y" b' []
    let args := [Value.function (.host 0 .greet)]
    ("y" ∉ b.names ∧ Builtin.ofName? "y" = none) ∧
    (r.outcome 256 c e = .error (.notFunction "x" .string) ∧ r.outcome 256 c e' = .error (.notFunction "y" .string)) ∧
    Outcome.Like EvalError.SameKind (Value.Renamed 0) (r.outcome 256 c e) (r.outcome 256 c e') ∧
    EndsAlike False (Outcome.Like EvalError.SameKind (Value.Renamed 0)) (Hosts.standard.Gives 256 c e r)
      (Hosts.standard.Gives 256 c e' r) ∧
    EndsAlike False (Outcome.Like EvalError.SameKind (Value.Renamed 0)) (Hosts.standard.Calls f args r)
      (Hosts.standard.Calls g args r) := by
  intro r c b b' e e' f g args
  have hfresh : "y" ∉ b.names := by decide
  have hbuiltin : Builtin.ofName? "y" = none := by decide
  have hlambda : Expr.Alpha Eq (.lambda "x" b) (.lambda "y" b') := Expr.alpha_lambda (fun _ => rfl) hfresh hbuiltin
  have hfg : Function.Renamed 0 f g := by
    cases hlambda with
    | lambda hbody => exact .closure (Nat.le_refl 0) hbody (Scope.Renamed.self 0 [])
  obtain ⟨houtcome, hhosts⟩ :=
    Registry.outcome_rename (.argument "map" [.reference "items" []] .here []) hfresh hbuiltin r 256 c
  obtain ⟨hgives, hcalls⟩ := hhosts _ Hosts.standard_reserved
  refine ⟨⟨hfresh, hbuiltin⟩, ⟨by cbv, by cbv⟩, houtcome, hgives, ?_⟩
  exact hcalls r f g args args (Nat.le_refl 0) hfg (items_related_refl Function.Renamed.same args)

end RuleLang
