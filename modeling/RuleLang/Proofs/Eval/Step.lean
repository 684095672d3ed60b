import RuleLang.Eval.Evaluator
import RuleLang.Proofs.Builtin.Lifting

/-!
# One step of an evaluation under a lifting

Steps of two expressions in two scopes do alike if the expressions are of one kind, if what they look up is alike,
and if their parts, their calls and their new closures are. What else the scopes bind does not matter.
-/

namespace RuleLang

/-- The expressions that a step evaluates. -/
def Expr.parts : Expr → List Expr
  | .reference _ segments => segments.filterMap fun
    | .index e => some e
    | .property _ => none
  | .unary _ operand => [operand]
  | .binary _ left right => [left, right]
  | .ternary condition yes no => [condition, yes, no]
  | .call _ args => args
  | _ => []

/-- The names that a step looks up in its scope. -/
def Expr.looksUp : Expr → List String
  | .reference root _ => [root]
  | .call name _ => if (Builtin.ofName? name).isSome then [] else [name]
  | _ => []

/-- Callees for a number of arguments: related functions, or the same builtin. If a builtin does not admit as many
arguments, its error is like itself. -/
inductive Callee.Related (E : EvalError → EvalError → Prop) (F : Function → Function → Prop) (given : Nat) :
    Builtin ⊕ Function → Builtin ⊕ Function → Prop
  | builtin {b : Builtin} :
      (∀ e, b.arity.check b.name given = .error e → E e e) → Callee.Related E F given (.inl b) (.inl b)
  | function {f g : Function} : F f g → Callee.Related E F given (.inr f) (.inr g)

/-- The same property, or indices that are related. -/
inductive Segment.Corresponds (P : Expr → Expr → Prop) : Segment → Segment → Prop
  | property (name : String) : Corresponds P (.property name) (.property name)
  | index {e e' : Expr} : P e e' → Corresponds P (.index e) (.index e')

/-- Expressions of one kind that find like things in their scopes and whose parts are related. Of the lambdas
themselves nothing is asked, as a step does not look into them. -/
inductive Expr.Corresponds (E : EvalError → EvalError → Prop) (F : Function → Function → Prop) (scope scope' : Scope)
    (P : Expr → Expr → Prop) : Expr → Expr → Prop
  | number (x : Float) : Corresponds E F scope scope' P (.number x) (.number x)
  | string (s : String) : Corresponds E F scope scope' P (.string s) (.string s)
  | reference {root root' : String} {segments segments' : List Segment} :
      Option.Rel (Value.Related F) (scope.lookup root) (scope'.lookup root') →
      Paired (Segment.Corresponds P) segments segments' →
      Corresponds E F scope scope' P (.reference root segments) (.reference root' segments')
  | unary (op : UnaryOp) {x x' : Expr} : P x x' → Corresponds E F scope scope' P (.unary op x) (.unary op x')
  | binary (op : BinaryOp) {x x' y y' : Expr} :
      P x x' → P y y' → Corresponds E F scope scope' P (.binary op x y) (.binary op x' y')
  | ternary {c c' x x' y y' : Expr} :
      P c c' → P x x' → P y y' → Corresponds E F scope scope' P (.ternary c x y) (.ternary c' x' y')
  | call {name name' : String} {args args' : List Expr} :
      Outcome.Like E (Callee.Related E F args.length) (callee scope name) (callee scope' name') →
      Paired P args args' → Corresponds E F scope scope' P (.call name args) (.call name' args')
  | lambda (param param' : String) (body body' : Expr) :
      Corresponds E F scope scope' P (.lambda param body) (.lambda param' body')

section Correspondence

variable {E : EvalError → EvalError → Prop} {F : Function → Function → Prop} {P : Expr → Expr → Prop}
  {scope scope' : Scope}

/-- Names that are no builtins, or one builtin, have like callees if they are bound alike. -/
theorem callee_like (hE : ∀ e, E e e) {name name' : String} (hname : Builtin.ofName? name = Builtin.ofName? name')
    (hundefined : E (.undefined name) (.undefined name'))
    (hkind : ∀ kind, E (.notFunction name kind) (.notFunction name' kind))
    (hlookup : Builtin.ofName? name = none → Option.Rel (Value.Related F) (scope.lookup name) (scope'.lookup name'))
    (given : Nat) : Outcome.Like E (Callee.Related E F given) (callee scope name) (callee scope' name') := by
  rw [callee, callee, ← hname]
  cases hb : Builtin.ofName? name with
  | some b => exact .ok (.builtin fun e _ => hE e)
  | none =>
    have hfound := hlookup hb
    generalize scope.lookup name = a at hfound
    generalize scope'.lookup name' = b at hfound
    cases hfound with
    | none => exact .error hundefined
    | some hv =>
      cases hv with
      | function hf => exact .ok (.function hf)
      | _ => exact .error (hkind _)

theorem Expr.Corresponds.mono {Q : Expr → Expr → Prop} (hPQ : ∀ x x', P x x' → Q x x') {e e' : Expr}
    (h : Expr.Corresponds E F scope scope' P e e') : Expr.Corresponds E F scope scope' Q e e' := by
  cases h with
  | number x => exact .number x
  | string s => exact .string s
  | reference hroot hsegments =>
    refine .reference hroot (hsegments.mono fun _ _ hsegment => ?_)
    cases hsegment with
    | property name => exact .property name
    | index hx => exact .index (hPQ _ _ hx)
  | unary op hx => exact .unary op (hPQ _ _ hx)
  | binary op hx hy => exact .binary op (hPQ _ _ hx) (hPQ _ _ hy)
  | ternary hc hx hy => exact .ternary (hPQ _ _ hc) (hPQ _ _ hx) (hPQ _ _ hy)
  | call hcallee hargs => exact .call hcallee (hargs.mono hPQ)
  | lambda param param' body body' => exact .lambda param param' body body'

/-- An expression corresponds to itself, if what it looks up and its parts do. -/
theorem Expr.Corresponds.self {e : Expr}
    (hroot : ∀ root segments, e = .reference root segments →
      Option.Rel (Value.Related F) (scope.lookup root) (scope'.lookup root))
    (hcallee : ∀ name args, e = .call name args →
      Outcome.Like E (Callee.Related E F args.length) (callee scope name) (callee scope' name))
    (hpart : ∀ x ∈ e.parts, P x x) : Expr.Corresponds E F scope scope' P e e := by
  cases e with
  | number x => exact .number x
  | string s => exact .string s
  | reference root segments =>
    refine .reference (hroot root segments rfl) (.self fun segment hsegment => ?_)
    cases segment with
    | property name => exact .property name
    | index x => exact .index (hpart x (List.mem_filterMap.2 ⟨_, hsegment, rfl⟩))
  | unary op x => exact .unary op (hpart x (List.mem_singleton_self x))
  | binary op x y => exact .binary op (hpart x (by simp [Expr.parts])) (hpart y (by simp [Expr.parts]))
  | ternary c x y =>
    exact .ternary (hpart c (by simp [Expr.parts])) (hpart x (by simp [Expr.parts])) (hpart y (by simp [Expr.parts]))
  | call name args => exact .call (hcallee name args rfl) (.self hpart)
  | lambda param body => exact .lambda param param body body

/-- An expression corresponds to itself in scopes that agree on the names that it looks up. -/
theorem Expr.Corresponds.of_looksUp (hE : ∀ e, E e e) {e : Expr}
    (hlookup : ∀ name ∈ e.looksUp, Option.Rel (Value.Related F) (scope.lookup name) (scope'.lookup name))
    (hpart : ∀ x ∈ e.parts, P x x) : Expr.Corresponds E F scope scope' P e e := by
  refine .self ?_ ?_ hpart
  · intro root segments he
    subst he
    exact hlookup root (List.mem_singleton_self root)
  · intro name args he
    subst he
    exact callee_like hE rfl (hE _) (fun _ => hE _) (fun hb => hlookup name (by simp [Expr.looksUp, hb])) args.length

end Correspondence

namespace Lifting

variable {m₁ m₂ : Type → Type} [Monad m₁] [MonadExceptOf EvalError m₁] [Monad m₂] [MonadExceptOf EvalError m₂]
  {L : Lifting m₁ m₂} {F : Function → Function → Prop}

theorem follow {eval₁ : Expr → m₁ Value} {eval₂ : Expr → m₂ Value} {segments segments' : List Segment}
    (h : Paired (Segment.Corresponds fun x x' => L.rel (Value.Related F) (eval₁ x) (eval₂ x')) segments segments')
    {v w : Value} (hvw : Value.Related F v w) :
    L.rel (Value.Related F) (RuleLang.follow eval₁ v segments) (RuleLang.follow eval₂ w segments') := by
  induction h generalizing v w with
  | nil => exact L.pure hvw
  | cons hsegment _ ih =>
    cases hsegment with
    | property name =>
      have hfound := hvw.property? name
      rw [RuleLang.follow, RuleLang.follow]
      generalize v.property? name = a at hfound
      generalize w.property? name = b at hfound
      cases hfound with
      | none => exact L.pure .null
      | some h => exact ih h
    | index heval =>
      rw [RuleLang.follow, RuleLang.follow]
      refine L.bind heval fun i j hij => ?_
      have hfound := hvw.item? hij
      generalize v.item? i = a at hfound
      generalize w.item? j = b at hfound
      cases hfound with
      | none => exact L.pure .null
      | some h => exact ih h

theorem Evaluates.perform {eval₁ : Evaluator m₁} {eval₂ : Evaluator m₂} (hF : L.Evaluates F eval₁ eval₂)
    {f g : Builtin ⊕ Function} {args args' : List Value} (hfg : Callee.Related L.errors F args.length f g)
    (h : Paired (Value.Related F) args args') :
    L.rel (Value.Related F) (RuleLang.perform eval₁ f args) (RuleLang.perform eval₂ g args') := by
  cases hfg with
  | @builtin b hcheck => exact Builtin.call_lift (fun hf h => hF.call hf h) b hcheck h
  | function hfg => exact hF.call hfg h

/-- Steps do alike if their parts, their calls and their new closures do. -/
theorem step (hF : Function.Faithful F) {inside₁ : Inside m₁} {inside₂ : Inside m₂}
    {scope₁ scope₂ : Scope} {e e' : Expr}
    (h : Expr.Corresponds L.errors F scope₁ scope₂
      (fun x x' => L.rel (Value.Related F) (inside₁.operand x) (inside₂.operand x')) e e')
    (hrun : ∀ {f g args args'}, Callee.Related L.errors F args.length f g → Paired (Value.Related F) args args' →
      L.rel (Value.Related F) (inside₁.run f args) (inside₂.run g args'))
    (hclose : ∀ param param' body body', e = .lambda param body → e' = .lambda param' body' →
      L.rel (Value.Related F) (inside₁.close param body) (inside₂.close param' body')) :
    L.rel (Value.Related F) (RuleLang.step inside₁ scope₁ e) (RuleLang.step inside₂ scope₂ e') := by
  cases h with
  | number x => exact L.pure (.number x)
  | string s => exact L.pure (.string s)
  | @reference root root' _ _ hfound hsegments =>
    rw [RuleLang.step, RuleLang.step]
    generalize scope₁.lookup root = a at hfound
    generalize scope₂.lookup root' = b at hfound
    cases hfound with
    | none => exact L.pure .null
    | some hvw => exact L.follow hsegments hvw
  | unary op hx => exact L.bind hx fun v w hvw => L.typed (op.apply_related hvw)
  | binary op hx hy =>
    refine L.bind hx fun v v' hv => ?_
    exact L.bind hy fun w w' hw => L.typed (op.apply_related hF hv hw)
  | ternary hc hx hy =>
    refine L.bind hc fun v w hvw => ?_
    rw [hvw.truthy_eq]
    split
    · exact hx
    · exact hy
  | call hcallee hargs =>
    refine L.bind (L.outcome hcallee) fun f g hfg => ?_
    refine L.bind (L.mapM (fun _ _ hx => hx) hargs) fun vs ws hvalues => ?_
    obtain ⟨hvalues, hlength⟩ := hvalues
    exact hrun (hlength ▸ hfg) hvalues
  | lambda param param' body body' => exact hclose param param' body body' rfl rfl

/-- A step does alike in scopes that agree on what it looks up. -/
theorem step_self (hE : ∀ e, L.errors e e) (hF : Function.Faithful F) {inside₁ : Inside m₁}
    {inside₂ : Inside m₂} {scope₁ scope₂ : Scope} {e : Expr}
    (hlookup : ∀ name ∈ e.looksUp, Option.Rel (Value.Related F) (scope₁.lookup name) (scope₂.lookup name))
    (hoperand : ∀ x ∈ e.parts, L.rel (Value.Related F) (inside₁.operand x) (inside₂.operand x))
    (hrun : ∀ {f g args args'}, Callee.Related L.errors F args.length f g → Paired (Value.Related F) args args' →
      L.rel (Value.Related F) (inside₁.run f args) (inside₂.run g args'))
    (hclose : ∀ param body, e = .lambda param body →
      L.rel (Value.Related F) (inside₁.close param body) (inside₂.close param body)) :
    L.rel (Value.Related F) (RuleLang.step inside₁ scope₁ e) (RuleLang.step inside₂ scope₂ e) := by
  refine L.step hF (.of_looksUp hE hlookup hoperand) hrun fun param param' body body' he he' => ?_
  subst he
  cases he'
  exact hclose param body rfl

end Lifting

end RuleLang
