import RuleLang.Builtin.Table
import RuleLang.Proofs.Eval.Step

/-!
# Expressions that differ in bound names

The parameter of a lambda may be renamed, if its new name is neither in use inside nor that of a builtin. What comes
out is the same expression but for names that stand for the same binding. `Expr.Alpha N` says this of two expressions
whose free names correspond by `N`; inside a lambda the parameters correspond to one another, and to nothing else.
-/

namespace RuleLang

mutual

/-- The names that occur in an expression: the roots of references, the names of calls, and parameters. -/
def Expr.names : Expr → List String
  | .number _ | .string _ => []
  | .reference root segments => root :: Expr.namesOfSegments segments
  | .unary _ operand => operand.names
  | .binary _ left right => left.names ++ right.names
  | .ternary condition yes no => condition.names ++ (yes.names ++ no.names)
  | .call name args => name :: Expr.namesOfArgs args
  | .lambda param body => param :: body.names

def Expr.namesOfSegments : List Segment → List String
  | [] => []
  | .property _ :: segments => Expr.namesOfSegments segments
  | .index e :: segments => e.names ++ Expr.namesOfSegments segments

def Expr.namesOfArgs : List Expr → List String
  | [] => []
  | e :: args => e.names ++ Expr.namesOfArgs args

end

mutual

/-- Renames the references with the root `x`, and the calls of `x` unless it is a builtin. A lambda that binds `x`
again is left as it is. -/
def Expr.rename (x y : String) : Expr → Expr
  | .number v => .number v
  | .string s => .string s
  | .reference root segments => .reference (if root = x then y else root) (Expr.renameSegments x y segments)
  | .unary op operand => .unary op (operand.rename x y)
  | .binary op left right => .binary op (left.rename x y) (right.rename x y)
  | .ternary condition yes no => .ternary (condition.rename x y) (yes.rename x y) (no.rename x y)
  | .call name args =>
    .call (if name = x ∧ Builtin.ofName? x = none then y else name) (Expr.renameArgs x y args)
  | .lambda param body => .lambda param (if param = x then body else body.rename x y)

def Expr.renameSegments (x y : String) : List Segment → List Segment
  | [] => []
  | .property name :: segments => .property name :: Expr.renameSegments x y segments
  | .index e :: segments => .index (e.rename x y) :: Expr.renameSegments x y segments

def Expr.renameArgs (x y : String) : List Expr → List Expr
  | [] => []
  | e :: args => e.rename x y :: Expr.renameArgs x y args

end

/-- An expression with a hole in the place of one expression in it. -/
inductive Expr.Hole where
  | here
  | index (root : String) (before : List Segment) (hole : Expr.Hole) (after : List Segment)
  | operand (op : UnaryOp) (hole : Expr.Hole)
  | left (op : BinaryOp) (hole : Expr.Hole) (y : Expr)
  | right (op : BinaryOp) (x : Expr) (hole : Expr.Hole)
  | condition (hole : Expr.Hole) (x y : Expr)
  | yes (c : Expr) (hole : Expr.Hole) (y : Expr)
  | no (c x : Expr) (hole : Expr.Hole)
  | argument (name : String) (before : List Expr) (hole : Expr.Hole) (after : List Expr)
  | body (param : String) (hole : Expr.Hole)

/-- Puts an expression into the hole. -/
def Expr.Hole.fill (e : Expr) : Expr.Hole → Expr
  | .here => e
  | .index root before hole after => .reference root (before ++ .index (hole.fill e) :: after)
  | .operand op hole => .unary op (hole.fill e)
  | .left op hole y => .binary op (hole.fill e) y
  | .right op x hole => .binary op x (hole.fill e)
  | .condition hole x y => .ternary (hole.fill e) x y
  | .yes c hole y => .ternary c (hole.fill e) y
  | .no c x hole => .ternary c x (hole.fill e)
  | .argument name before hole after => .call name (before ++ hole.fill e :: after)
  | .body param hole => .lambda param (hole.fill e)

/-- Which names correspond inside lambdas with the parameters `p` and `p'`. -/
def Rebound (N : String → String → Prop) (p p' n n' : String) : Prop :=
  (n = p ∧ n' = p') ∨ (n ≠ p ∧ n' ≠ p' ∧ N n n')

mutual

/-- Expressions that are the same but for their parameters and for free names, which correspond by `N`. The name of a
builtin that is called is the same. -/
inductive Expr.Alpha : (String → String → Prop) → Expr → Expr → Prop
  | number {N : String → String → Prop} (x : Float) : Expr.Alpha N (.number x) (.number x)
  | string {N : String → String → Prop} (s : String) : Expr.Alpha N (.string s) (.string s)
  | reference {N : String → String → Prop} {root root' : String} {segments segments' : List Segment} :
      N root root' → Expr.AlphaSegments N segments segments' →
      Expr.Alpha N (.reference root segments) (.reference root' segments')
  | unary {N : String → String → Prop} (op : UnaryOp) {x x' : Expr} :
      Expr.Alpha N x x' → Expr.Alpha N (.unary op x) (.unary op x')
  | binary {N : String → String → Prop} (op : BinaryOp) {x x' y y' : Expr} :
      Expr.Alpha N x x' → Expr.Alpha N y y' → Expr.Alpha N (.binary op x y) (.binary op x' y')
  | ternary {N : String → String → Prop} {c c' x x' y y' : Expr} :
      Expr.Alpha N c c' → Expr.Alpha N x x' → Expr.Alpha N y y' → Expr.Alpha N (.ternary c x y) (.ternary c' x' y')
  | call {N : String → String → Prop} {name name' : String} {args args' : List Expr} :
      Builtin.ofName? name = Builtin.ofName? name' → (Builtin.ofName? name = none → N name name') →
      Expr.AlphaArgs N args args' → Expr.Alpha N (.call name args) (.call name' args')
  | lambda {N : String → String → Prop} {p p' : String} {b b' : Expr} :
      Expr.Alpha (Rebound N p p') b b' → Expr.Alpha N (.lambda p b) (.lambda p' b')

inductive Expr.AlphaSegments : (String → String → Prop) → List Segment → List Segment → Prop
  | nil {N : String → String → Prop} : Expr.AlphaSegments N [] []
  | property {N : String → String → Prop} (name : String) {rest rest' : List Segment} :
      Expr.AlphaSegments N rest rest' → Expr.AlphaSegments N (.property name :: rest) (.property name :: rest')
  | index {N : String → String → Prop} {e e' : Expr} {rest rest' : List Segment} :
      Expr.Alpha N e e' → Expr.AlphaSegments N rest rest' →
      Expr.AlphaSegments N (.index e :: rest) (.index e' :: rest')

inductive Expr.AlphaArgs : (String → String → Prop) → List Expr → List Expr → Prop
  | nil {N : String → String → Prop} : Expr.AlphaArgs N [] []
  | cons {N : String → String → Prop} {e e' : Expr} {args args' : List Expr} :
      Expr.Alpha N e e' → Expr.AlphaArgs N args args' → Expr.AlphaArgs N (e :: args) (e' :: args')

end

section Alpha

variable {N : String → String → Prop}

/-- A name other than the parameter corresponds to itself inside a lambda, if it does outside. -/
theorem Rebound.self {p n : String} (h : n ≠ p → N n n) : Rebound N p p n n := by
  by_cases hn : n = p
  · exact .inl ⟨hn, hn⟩
  · exact .inr ⟨hn, hn, h hn⟩

theorem Expr.AlphaSegments.paired {segments segments' : List Segment} (h : Expr.AlphaSegments N segments segments') :
    Paired (Segment.Corresponds (Expr.Alpha N)) segments segments' := by
  induction segments generalizing segments' with
  | nil =>
    cases h
    exact .nil
  | cons segment segments ih =>
    cases h with
    | property name hrest => exact .cons (.property name) (ih hrest)
    | index he hrest => exact .cons (.index he) (ih hrest)

theorem Expr.AlphaArgs.paired {args args' : List Expr} (h : Expr.AlphaArgs N args args') :
    Paired (Expr.Alpha N) args args' := by
  induction args generalizing args' with
  | nil =>
    cases h
    exact .nil
  | cons e args ih =>
    cases h with
    | cons he hargs => exact .cons he (ih hargs)

mutual

theorem Expr.Alpha.self {N : String → String → Prop} {e : Expr} (h : ∀ n ∈ e.names, N n n) : Expr.Alpha N e e := by
  match e with
  | .number x => exact .number x
  | .string s => exact .string s
  | .reference root segments =>
    simp only [Expr.names, List.forall_mem_cons] at h
    exact .reference h.1 (alphaSegments_self h.2)
  | .unary op x =>
    rw [Expr.names] at h
    exact .unary op (Expr.Alpha.self h)
  | .binary op x y =>
    simp only [Expr.names, List.forall_mem_append] at h
    exact .binary op (Expr.Alpha.self h.1) (Expr.Alpha.self h.2)
  | .ternary c x y =>
    simp only [Expr.names, List.forall_mem_append] at h
    exact .ternary (Expr.Alpha.self h.1) (Expr.Alpha.self h.2.1) (Expr.Alpha.self h.2.2)
  | .call name args =>
    simp only [Expr.names, List.forall_mem_cons] at h
    exact .call rfl (fun _ => h.1) (alphaArgs_self h.2)
  | .lambda p b =>
    simp only [Expr.names, List.forall_mem_cons] at h
    exact .lambda (Expr.Alpha.self fun n hn => Rebound.self fun _ => h.2 n hn)

theorem alphaSegments_self {N : String → String → Prop} {segments : List Segment}
    (h : ∀ n ∈ Expr.namesOfSegments segments, N n n) : Expr.AlphaSegments N segments segments := by
  match segments with
  | [] => exact .nil
  | .property name :: segments =>
    rw [Expr.namesOfSegments] at h
    exact .property name (alphaSegments_self h)
  | .index e :: segments =>
    simp only [Expr.namesOfSegments, List.forall_mem_append] at h
    exact .index (Expr.Alpha.self h.1) (alphaSegments_self h.2)

theorem alphaArgs_self {N : String → String → Prop} {args : List Expr} (h : ∀ n ∈ Expr.namesOfArgs args, N n n) :
    Expr.AlphaArgs N args args := by
  match args with
  | [] => exact .nil
  | e :: args =>
    simp only [Expr.namesOfArgs, List.forall_mem_append] at h
    exact .cons (Expr.Alpha.self h.1) (alphaArgs_self h.2)

end

mutual

/-- Renaming `x` to a name `y` that is not in use gives the same expression, if `x` corresponds to `y` and every
other name to itself. -/
theorem Expr.alpha_rename {N : String → String → Prop} {x y : String} (hxy : N x y) (hy : Builtin.ofName? y = none)
    {e : Expr} (h : ∀ n ∈ e.names, n ≠ y ∧ (n ≠ x → N n n)) : Expr.Alpha N e (e.rename x y) := by
  match e with
  | .number v => exact .number v
  | .string s => exact .string s
  | .reference root segments =>
    simp only [Expr.names, List.forall_mem_cons] at h
    rw [Expr.rename]
    refine .reference ?_ (alphaSegments_rename hxy hy h.2)
    by_cases hroot : root = x
    · rwa [if_pos hroot, hroot]
    · rw [if_neg hroot]
      exact h.1.2 hroot
  | .unary op e =>
    rw [Expr.names] at h
    exact .unary op (Expr.alpha_rename hxy hy h)
  | .binary op e f =>
    simp only [Expr.names, List.forall_mem_append] at h
    exact .binary op (Expr.alpha_rename hxy hy h.1) (Expr.alpha_rename hxy hy h.2)
  | .ternary c e f =>
    simp only [Expr.names, List.forall_mem_append] at h
    obtain ⟨hc, he, hf⟩ := h
    exact .ternary (Expr.alpha_rename hxy hy hc) (Expr.alpha_rename hxy hy he) (Expr.alpha_rename hxy hy hf)
  | .call name args =>
    simp only [Expr.names, List.forall_mem_cons] at h
    have hargs := alphaArgs_rename hxy hy h.2
    rw [Expr.rename]
    by_cases hname : name = x
    · subst hname
      by_cases hbuiltin : Builtin.ofName? name = none
      · rw [if_pos ⟨rfl, hbuiltin⟩]
        exact .call (hbuiltin.trans hy.symm) (fun _ => hxy) hargs
      · rw [if_neg fun hx => hbuiltin hx.2]
        exact .call rfl (fun hnone => absurd hnone hbuiltin) hargs
    · rw [if_neg fun hx => hname hx.1]
      exact .call rfl (fun _ => h.1.2 hname) hargs
  | .lambda p b =>
    simp only [Expr.names, List.forall_mem_cons] at h
    rw [Expr.rename]
    refine .lambda ?_
    by_cases hp : p = x
    · -- inside, `x` is another name
      rw [if_pos hp]
      exact .self fun n hn => Rebound.self fun hne => (h.2 n hn).2 (hp ▸ hne)
    · rw [if_neg hp]
      refine Expr.alpha_rename (.inr ⟨Ne.symm hp, Ne.symm h.1.1, hxy⟩) hy fun n hn => ⟨(h.2 n hn).1, fun hne => ?_⟩
      exact Rebound.self fun _ => (h.2 n hn).2 hne

theorem alphaSegments_rename {N : String → String → Prop} {x y : String} (hxy : N x y)
    (hy : Builtin.ofName? y = none) {segments : List Segment}
    (h : ∀ n ∈ Expr.namesOfSegments segments, n ≠ y ∧ (n ≠ x → N n n)) :
    Expr.AlphaSegments N segments (Expr.renameSegments x y segments) := by
  match segments with
  | [] => exact .nil
  | .property name :: segments =>
    rw [Expr.namesOfSegments] at h
    exact .property name (alphaSegments_rename hxy hy h)
  | .index e :: segments =>
    simp only [Expr.namesOfSegments, List.forall_mem_append] at h
    exact .index (Expr.alpha_rename hxy hy h.1) (alphaSegments_rename hxy hy h.2)

theorem alphaArgs_rename {N : String → String → Prop} {x y : String} (hxy : N x y) (hy : Builtin.ofName? y = none)
    {args : List Expr} (h : ∀ n ∈ Expr.namesOfArgs args, n ≠ y ∧ (n ≠ x → N n n)) :
    Expr.AlphaArgs N args (Expr.renameArgs x y args) := by
  match args with
  | [] => exact .nil
  | e :: args =>
    simp only [Expr.namesOfArgs, List.forall_mem_append] at h
    exact .cons (Expr.alpha_rename hxy hy h.1) (alphaArgs_rename hxy hy h.2)

end

/-- A lambda whose parameter is renamed is the same lambda. -/
theorem Expr.alpha_lambda (hN : ∀ n, N n n) {x y : String} {b : Expr} (hfresh : y ∉ b.names)
    (hy : Builtin.ofName? y = none) : Expr.Alpha N (.lambda x b) (.lambda y (b.rename x y)) := by
  refine .lambda (Expr.alpha_rename (.inl ⟨rfl, rfl⟩) hy fun n hn => ?_)
  have hne : n ≠ y := fun heq => hfresh (heq ▸ hn)
  exact ⟨hne, fun hx => .inr ⟨hx, hne, hN n⟩⟩

theorem Expr.AlphaSegments.append {as as' bs bs' : List Segment} (h : Expr.AlphaSegments N as as')
    (h' : Expr.AlphaSegments N bs bs') : Expr.AlphaSegments N (as ++ bs) (as' ++ bs') := by
  induction as generalizing as' with
  | nil =>
    cases h
    exact h'
  | cons segment as ih =>
    cases h with
    | property name hrest => exact .property name (ih hrest)
    | index he hrest => exact .index he (ih hrest)

theorem Expr.AlphaArgs.append {as as' bs bs' : List Expr} (h : Expr.AlphaArgs N as as')
    (h' : Expr.AlphaArgs N bs bs') : Expr.AlphaArgs N (as ++ bs) (as' ++ bs') := by
  induction as generalizing as' with
  | nil =>
    cases h
    exact h'
  | cons e as ih =>
    cases h with
    | cons he hargs => exact .cons he (ih hargs)

/-- What fills a hole may be replaced by the same expression, in which every name corresponds to itself. -/
theorem Expr.Hole.alpha_fill {e e' : Expr} (h : ∀ N : String → String → Prop, (∀ n, N n n) → Expr.Alpha N e e')
    (hole : Expr.Hole) (hN : ∀ n, N n n) : Expr.Alpha N (hole.fill e) (hole.fill e') := by
  have hself (x : Expr) : Expr.Alpha N x x := .self fun n _ => hN n
  induction hole generalizing N with
  | here => exact h N hN
  | index root before hole after ih =>
    have hsegments (segments : List Segment) : Expr.AlphaSegments N segments segments :=
      alphaSegments_self fun n _ => hN n
    exact .reference (hN root) ((hsegments before).append (.index (ih hN hself) (hsegments after)))
  | operand op hole ih => exact .unary op (ih hN hself)
  | left op hole y ih => exact .binary op (ih hN hself) (hself y)
  | right op x hole ih => exact .binary op (hself x) (ih hN hself)
  | condition hole x y ih => exact .ternary (ih hN hself) (hself x) (hself y)
  | yes c hole y ih => exact .ternary (hself c) (ih hN hself) (hself y)
  | no c x hole ih => exact .ternary (hself c) (hself x) (ih hN hself)
  | argument name before hole after ih =>
    have hargs (args : List Expr) : Expr.AlphaArgs N args args := alphaArgs_self fun n _ => hN n
    exact .call rfl (fun _ => hN name) ((hargs before).append (.cons (ih hN hself) (hargs after)))
  | body param hole ih =>
    have hrebound (n : String) : Rebound N param param n n := Rebound.self fun _ => hN n
    exact .lambda (ih hrebound fun x => .self fun n _ => hrebound n)

end Alpha

end RuleLang
