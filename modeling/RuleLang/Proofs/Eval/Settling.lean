import RuleLang.Proofs.Eval.Counter
import RuleLang.Proofs.Eval.Step

/-!
# Runs settle

With fuel for all levels that the limits leave, every run has an outcome, and when it ends all counters hold what
they held before. Two runs of one expression have the same outcome if the evaluations that they are part of have
the same limits and counters under a renumbering, and what they see is the same under this renumbering.
-/

namespace RuleLang

/-- Functions that are the same up to the numbers of the evaluations that they belong to. -/
inductive Function.Renumbered (ρ : Nat → Nat → Prop) : Function → Function → Prop
  | host (id : Nat) (behaviour : HostFunction) : Renumbered ρ (.host id behaviour) (.host id behaviour)
  | closure (id : Nat) {k k' : Nat} (param : String) (body : Expr) {scope scope' : List (String × Value)} :
      ρ k k' → Paired (Bound (Value.Related (Renumbered ρ))) scope scope' →
      Renumbered ρ (.closure id k param body scope) (.closure id k' param body scope')

/-- Values that are the same up to the numbers of evaluations. -/
abbrev Value.Renumbered (ρ : Nat → Nat → Prop) : Value → Value → Prop :=
  Value.Related (Function.Renumbered ρ)

/-- Scopes that bind the same names to values that are the same up to the numbers of evaluations. -/
abbrev Scope.Renumbered (ρ : Nat → Nat → Prop) : Scope → Scope → Prop :=
  Paired (Bound (Value.Renumbered ρ))

section Reflexivity

variable {ρ : Nat → Nat → Prop}

mutual

theorem Value.renumbered_refl (hρ : ∀ k, ρ k k) (v : Value) : Value.Renumbered ρ v v := by
  match v with
  | .null => exact .null
  | .boolean b => exact .boolean b
  | .number x => exact .number x
  | .string s => exact .string s
  | .list items => exact .list (items_renumbered_refl hρ items)
  | .map entries => exact .map (entries_renumbered_refl hρ entries)
  | .function f => exact .function (Function.renumbered_refl hρ f)

theorem Function.renumbered_refl (hρ : ∀ k, ρ k k) (f : Function) : Function.Renumbered ρ f f := by
  match f with
  | .host id behaviour => exact .host id behaviour
  | .closure id k param body scope => exact .closure id param body (hρ k) (entries_renumbered_refl hρ scope)

theorem items_renumbered_refl (hρ : ∀ k, ρ k k) (items : List Value) : Paired (Value.Renumbered ρ) items items := by
  match items with
  | [] => exact .nil
  | v :: items => exact .cons (Value.renumbered_refl hρ v) (items_renumbered_refl hρ items)

theorem entries_renumbered_refl (hρ : ∀ k, ρ k k) (entries : List (String × Value)) :
    Scope.Renumbered ρ entries entries := by
  match entries with
  | [] => exact .nil
  | (name, v) :: entries => exact .cons (.mk (Value.renumbered_refl hρ v)) (entries_renumbered_refl hρ entries)

end

end Reflexivity

theorem Function.Renumbered.id_eq {ρ : Nat → Nat → Prop} {f g : Function} (h : Function.Renumbered ρ f g) :
    f.id = g.id := by
  cases h <;> rfl

theorem Function.Renumbered.faithful {ρ : Nat → Nat → Prop} : Function.Faithful (Function.Renumbered ρ) :=
  .of_id_eq fun _ _ => Function.Renumbered.id_eq

/-- A renumbering under which evaluations have the same limits and counters. -/
structure Renumbering (ρ : Nat → Nat → Prop) (es es' : Evaluations) : Prop where
  agree : ∀ {i j}, ρ i j → es.get i = es'.get j
  unique : ∀ {i j k l}, ρ i j → ρ k l → (i = k ↔ j = l)

theorem Renumbering.setDepth {ρ : Nat → Nat → Prop} {es es' : Evaluations} (h : Renumbering ρ es es') {k k' : Nat}
    (hk : ρ k k') (hlt : k < es.length) (hlt' : k' < es'.length) (depth : Nat) :
    Renumbering ρ (es.setDepth k depth) (es'.setDepth k' depth) where
  agree := by
    intro i j hij
    by_cases hi : i = k
    · subst hi
      obtain rfl : j = k' := (h.unique hij hk).1 rfl
      rw [es.get_setDepth _ hlt, es'.get_setDepth _ hlt', h.agree hk]
    · have hj : j ≠ k' := fun hj => hi ((h.unique hij hk).2 hj)
      rw [es.get_setDepth_of_ne _ _ hi, es'.get_setDepth_of_ne _ _ hj, h.agree hij]
  unique := h.unique

section Settling

variable {α β : Type} {R : α → β → Prop}

theorem Run.bind_ok {x : Run α} {f : α → Run β} {r r' : Registry} {a : α} (h : x r = some (.ok a, r')) :
    (x >>= f) r = f a r' := by
  show (x r >>= _) = _
  rw [h]
  rfl

theorem Run.bind_error {x : Run α} {f : α → Run β} {r r' : Registry} {e : EvalError}
    (h : x r = some (.error e, r')) : (x >>= f) r = some (.error e, r') := by
  show (x r >>= _) = _
  rw [h]
  rfl

/--
Two actions settle alike if, whatever the number of functions made so far, both have an outcome, the outcomes are
related, all counters are put back, and both make the same number of functions.
-/
def Settles (es es' : Evaluations) (R : α → β → Prop) (x : Run α) (y : Run β) : Prop :=
  ∀ n, ∃ o o' n', x ⟨es, n⟩ = some (o, ⟨es, n'⟩) ∧ y ⟨es', n⟩ = some (o', ⟨es', n'⟩) ∧ Outcome.Related R o o'

/-- Settling alike is kept by all that runs are made of. -/
def Settles.lifting (es es' : Evaluations) : Lifting Run Run where
  errors := Eq
  rel := Settles es es'
  mismatch _ := rfl
  pure h n := ⟨_, _, n, rfl, rfl, .ok h⟩
  throw he n := by
    subst he
    exact ⟨_, _, n, rfl, rfl, .error _⟩
  bind := by
    intro _ _ _ _ _ _ x y f g hxy hfg n
    obtain ⟨o, o', n', hx, hy, ho⟩ := hxy n
    cases ho with
    | error e => exact ⟨_, _, n', Run.bind_error hx, Run.bind_error hy, .error e⟩
    | ok hab =>
      rw [Run.bind_ok hx, Run.bind_ok hy]
      exact hfg _ _ hab n'

theorem Run.observe_eq_map (x : Run α) (r : Registry) : observe x r = (x r).map fun (o, r') => (.ok o, r') := by
  show (x r >>= _) >>= _ = _
  rcases x r with _ | ⟨_ | _, _⟩ <;> rfl

/-- An action that runs under another counter has its own outcome, and the counter is put back. -/
theorem Run.atDepth_eq_map (k depth : Nat) (x : Run α) (r : Registry) : atDepth k depth x r =
    (x (r.setDepth k depth)).map fun (o, r') => (o, r'.setDepth k (r.evaluations.get k).depth) := by
  show (observe x (r.setDepth k depth) >>= _) = _
  rw [Run.observe_eq_map]
  rcases x (r.setDepth k depth) with _ | ⟨_ | _, _⟩ <;> rfl

theorem Run.atDepth_apply {k depth : Nat} {x : Run α} {r r' : Registry} {o : Except EvalError α}
    (h : x (r.setDepth k depth) = some (o, r')) :
    atDepth k depth x r = some (o, r'.setDepth k (r.evaluations.get k).depth) := by
  rw [Run.atDepth_eq_map, h]
  rfl

/-- Running an action under other counters settles, if the action does under those. -/
theorem Settles.atDepth {es es' : Evaluations} {k k' depth : Nat} {x : Run α} {y : Run β}
    (h : Settles (es.setDepth k depth) (es'.setDepth k' depth) R x y) :
    Settles es es' R (RuleLang.atDepth k depth x) (RuleLang.atDepth k' depth y) := by
  intro n
  obtain ⟨o, o', n', hx, hy, ho⟩ := h n
  have hx := Run.atDepth_apply (r := ⟨es, n⟩) hx
  have hy := Run.atDepth_apply (r := ⟨es', n⟩) hy
  simp only [Registry.setDepth, Evaluations.setDepth_setDepth, Evaluations.setDepth_get] at hx hy
  exact ⟨o, o', n', hx, hy, ho⟩

/-- An action that reads the registry settles, if it does with what it reads. -/
theorem Settles.read {es es' : Evaluations} {f : Registry → Run α} {g : Registry → Run β}
    (h : ∀ n, Settles es es' R (f ⟨es, n⟩) (g ⟨es', n⟩)) :
    Settles es es' R (getThe Registry >>= f) (getThe Registry >>= g) :=
  fun n => h n n

end Settling

section Evaluation

variable {ρ : Nat → Nat → Prop} {es es' : Evaluations} {k k' : Nat} {scope scope' : Scope}

/-- New closures are the same up to the numbers of evaluations. -/
theorem Settles.newClosure (hk : ρ k k') (h : Scope.Renumbered ρ scope scope') (param : String) (body : Expr) :
    Settles es es' (Value.Renumbered ρ) (newClosure k scope param body) (newClosure k' scope' param body) :=
  fun n => ⟨_, _, n + 1, rfl, rfl, .ok (.function (.closure n param body hk h))⟩

theorem Scope.Renumbered.lookup (h : Scope.Renumbered ρ scope scope') (name : String) :
    Option.Rel (Value.Renumbered ρ) (scope.lookup name) (scope'.lookup name) :=
  Entries.get?_related h name

/-- Closures are evaluated alike, if expressions are in evaluations with the same numbers. -/
theorem Settles.evaluates {eval eval' : (k depth : Nat) → Scope → Expr → Run Value} (hρ : Renumbering ρ es es')
    (heval : ∀ {k k' scope scope'} body, ρ k k' → Scope.Renumbered ρ scope scope' →
      Settles es es' (Value.Renumbered ρ) (eval k (es.get k).depth scope body)
        (eval' k' (es.get k).depth scope' body)) :
    (Settles.lifting es es').Evaluates (Function.Renumbered ρ) (fromCounter eval) (fromCounter eval') where
  host h := by
    cases h
    exact ⟨rfl, fun _ => rfl⟩
  closure h := by
    cases h with
    | closure _ _ _ hk hscope =>
      refine ⟨_, _, _, _, rfl, fun a b hab => Settles.read fun _ => ?_⟩
      rw [← hρ.agree hk]
      exact heval _ hk (.cons (.mk hab) hscope)

/--
With fuel for all that the limits leave, the evaluation of an expression settles, and alike in evaluations that
are the same under a renumbering.
-/
theorem evaluateNode_settles {fuel fuel' depth : Nat} {e : Expr} (hρ : Renumbering ρ es es') (hk : ρ k k')
    (hscope : Scope.Renumbered ρ scope scope') (hfuel : (es.setDepth k depth).slack < fuel)
    (hfuel' : (es'.setDepth k' depth).slack < fuel') :
    Settles es es' (Value.Renumbered ρ) (evaluateNode fuel k depth scope e)
      (evaluateNode fuel' k' depth scope' e) := by
  induction fuel generalizing fuel' es es' k k' depth scope scope' e with
  | zero => cases hfuel
  | succ fuel ih =>
    cases fuel' with
    | zero => cases hfuel'
    | succ fuel' =>
      rw [evaluateNode, evaluateNode]
      refine Settles.read fun _ => ?_
      rw [hρ.agree hk]
      by_cases hlimit : depth < (es'.get k').limit
      · have hlimit₁ : depth < (es.get k).limit := by rw [hρ.agree hk]; exact hlimit
        have hless := es.slack_setDepth_succ_lt hlimit₁
        have hless' := es'.slack_setDepth_succ_lt hlimit
        simp only [hlimit, ↓reduceIte]
        refine (Settles.lifting es es').step_self (fun _ => rfl) Function.Renumbered.faithful ?_ ?_ ?_ ?_
        · exact fun name _ => hscope.lookup name
        · exact fun x _ => ih hρ hk hscope (by omega) (by omega)
        · intro f g args args' hfg hargs
          have hrenumbering := hρ.setDepth hk (es.lt_length_of_lt_limit hlimit₁)
            (es'.lt_length_of_lt_limit hlimit) (depth + 1)
          refine Settles.atDepth ((Settles.evaluates hrenumbering fun body hj hscope => ?_).perform hfg hargs)
          refine ih hrenumbering hj hscope ?_ ?_
          · rw [Evaluations.setDepth_get]
            omega
          · rw [hrenumbering.agree hj, Evaluations.setDepth_get]
            omega
        · exact fun param body _ => Settles.newClosure hk hscope param body
      · simp only [hlimit, ↓reduceIte]
        exact (Settles.lifting es es').throw rfl

theorem Evaluations.slack_setDepth_lt_fuel (r : Registry) (k depth : Nat) :
    (r.evaluations.setDepth k depth).slack < r.fuel := by
  have hle := (r.evaluations.setDepth k depth).slack_le_capacity
  rw [Evaluations.capacity_setDepth] at hle
  exact Nat.lt_succ_of_le hle

theorem Run.evaluate_settles (hρ : Renumbering ρ es es') (hk : ρ k k') (hscope : Scope.Renumbered ρ scope scope')
    (e : Expr) : Settles es es' (Value.Renumbered ρ) (Run.evaluate k scope e) (Run.evaluate k' scope' e) :=
  Settles.read fun n => evaluateNode_settles hρ hk hscope (Evaluations.slack_setDepth_lt_fuel ⟨es, n⟩ k 0)
    (Evaluations.slack_setDepth_lt_fuel ⟨es', n⟩ k' 0)

/-- With the fuel of the registry, the bodies of closures settle. -/
theorem evaluateNode_evaluates (hρ : Renumbering ρ es es') (n : Nat) :
    (Settles.lifting es es').Evaluates (Function.Renumbered ρ)
      (fromCounter (evaluateNode (Registry.fuel ⟨es, n⟩))) (fromCounter (evaluateNode (Registry.fuel ⟨es', n⟩))) :=
  Settles.evaluates hρ fun _ hk hscope => evaluateNode_settles hρ hk hscope
    (Evaluations.slack_setDepth_lt_fuel ⟨es, n⟩ ..) (Evaluations.slack_setDepth_lt_fuel ⟨es', n⟩ ..)

theorem Run.call_settles (hρ : Renumbering ρ es es') {f g : Function} (hfg : Function.Renumbered ρ f g)
    {args args' : List Value} (h : Paired (Value.Renumbered ρ) args args') :
    Settles es es' (Value.Renumbered ρ) (Run.call f args) (Run.call g args') :=
  Settles.read fun n => (evaluateNode_evaluates hρ n).call hfg h

theorem Run.callBuiltin_settles (hρ : Renumbering ρ es es') (b : Builtin) (checked : Bool) {args args' : List Value}
    (h : Paired (Value.Renumbered ρ) args args') :
    Settles es es' (Value.Renumbered ρ) (Run.callBuiltin b checked args) (Run.callBuiltin b checked args') := by
  refine Settles.read fun n => ?_
  have hcall := evaluateNode_evaluates hρ n
  cases checked with
  | false => exact Builtin.run_lift (fun hf h => hcall.call hf h) b h
  | true => exact Builtin.call_lift (fun hf h => hcall.call hf h) b (fun _ _ => rfl) h

end Evaluation

section Ending

/-- Evaluations are the same without any renumbering. -/
theorem Renumbering.refl (es : Evaluations) : Renumbering Eq es es where
  agree := by
    rintro i _ rfl
    rfl
  unique := by
    rintro i _ k _ rfl rfl
    exact Iff.rfl

theorem Settles.isSome {es : Evaluations} {α : Type} {R : α → α → Prop} {x : Run α} (h : Settles es es R x x)
    (n : Nat) : (x ⟨es, n⟩).isSome := by
  obtain ⟨o, -, n', hx, -⟩ := h n
  rw [hx]
  rfl

/-- Every evaluation ends. -/
theorem Run.evaluate_ends (k : Nat) (scope : Scope) (e : Expr) (r : Registry) : (Run.evaluate k scope e r).isSome :=
  (Run.evaluate_settles (.refl r.evaluations) rfl (entries_renumbered_refl (fun _ => rfl) scope) e).isSome
    r.functions

theorem Run.call_ends (f : Function) (args : List Value) (r : Registry) : (Run.call f args r).isSome :=
  (Run.call_settles (.refl r.evaluations) (Function.renumbered_refl (fun _ => rfl) f)
    (items_renumbered_refl (fun _ => rfl) args)).isSome r.functions

theorem Run.callBuiltin_ends (b : Builtin) (checked : Bool) (args : List Value) (r : Registry) :
    (Run.callBuiltin b checked args r).isSome :=
  (Run.callBuiltin_settles (.refl r.evaluations) b checked (items_renumbered_refl (fun _ => rfl) args)).isSome
    r.functions

end Ending

end RuleLang
