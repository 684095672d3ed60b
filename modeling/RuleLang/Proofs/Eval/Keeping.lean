import RuleLang.Proofs.Eval.Settling

/-!
# Whatever ends has put the counters back

Evaluations and calls end within other runs, with whatever fuel is left there. However much that is, if they end,
then all counters hold what they held before.
-/

namespace RuleLang

variable {α β : Type} {R : α → β → Prop}

/-- An action that leaves all counters as they were, if it ends; its results are related to something. -/
structure Keeps (R : α → β → Prop) (x : Run α) (_ : Run β) : Prop where
  evaluations_eq : ∀ {r o r'}, x r = some (o, r') → r'.evaluations = r.evaluations
  related : ∀ {r a r'}, x r = some (.ok a, r') → ∃ b, R a b

theorem Keeps.forget {x : Run α} {y z : Run β} (h : Keeps R x y) : Keeps R x z :=
  ⟨h.evaluations_eq, h.related⟩

/-- A sequence that ends has ended in its first part, or goes on from its result. -/
theorem Run.bind_eq_some {x : Run α} {f : α → Run β} {r r'' : Registry} {o : Except EvalError β}
    (h : (x >>= f) r = some (o, r'')) :
    (∃ e, x r = some (.error e, r'') ∧ o = .error e) ∨
      ∃ a r', x r = some (.ok a, r') ∧ f a r' = some (o, r'') := by
  cases hx : x r with
  | none =>
    change (x r >>= _) = _ at h
    rw [hx] at h
    cases h
  | some p =>
    obtain ⟨oa, r'⟩ := p
    cases oa with
    | error e =>
      rw [Run.bind_error hx] at h
      cases h
      exact .inl ⟨e, rfl, rfl⟩
    | ok a =>
      rw [Run.bind_ok hx] at h
      exact .inr ⟨a, r', rfl, h⟩

/-- A sequence succeeds only if both its parts do. -/
theorem Run.ok_of_bind {x : Run α} {f : α → Run β} {b : β} {r r'' : Registry}
    (h : (x >>= f) r = some (.ok b, r'')) : ∃ a r', x r = some (.ok a, r') ∧ f a r' = some (.ok b, r'') := by
  rcases Run.bind_eq_some h with ⟨e, -, he⟩ | hok
  · cases he
  · exact hok

theorem Run.isSome_of_bind {x : Run α} {f : α → Run β} {r : Registry} (h : ((x >>= f) r).isSome) : (x r).isSome := by
  obtain ⟨⟨o, r'⟩, hr⟩ := Option.isSome_iff_exists.1 h
  rcases Run.bind_eq_some hr with ⟨e, hx, -⟩ | ⟨a, r'', hx, -⟩ <;> simp only [hx, Option.isSome_some]

/-- Leaving the counters as they were is kept by all that runs are made of. -/
def Keeps.lifting : Lifting Run Run where
  errors := Eq
  rel := Keeps
  mismatch _ := rfl
  pure := by
    intro _ _ _ a b hab
    constructor
    · intro r o r' h
      cases h
      rfl
    · intro r c r' h
      cases h
      exact ⟨b, hab⟩
  throw := by
    intro _ _ _ e _ _
    constructor
    · intro r o r' h
      cases h
      rfl
    · intro r c r' h
      cases h
  bind := by
    intro _ _ _ _ _ _ x _ f _ hx hf
    constructor
    · intro r o r'' h
      rcases Run.bind_eq_some h with ⟨e, hxe, -⟩ | ⟨a, r', hxa, hfa⟩
      · exact hx.evaluations_eq hxe
      · obtain ⟨b, hab⟩ := hx.related hxa
        rw [(hf a b hab).evaluations_eq hfa, hx.evaluations_eq hxa]
    · intro r c r'' h
      rcases Run.bind_eq_some h with ⟨e, -, he⟩ | ⟨a, r', hxa, hfa⟩
      · cases he
      · obtain ⟨b, hab⟩ := hx.related hxa
        exact (hf a b hab).related hfa

theorem Keeps.read {f : Registry → Run α} {g : Registry → Run β} (h : ∀ r, Keeps R (f r) (g r)) :
    Keeps R (getThe Registry >>= f) (getThe Registry >>= g) where
  evaluations_eq {r _ _} hr := (h r).evaluations_eq hr
  related {r _ _} hr := (h r).related hr

theorem Run.atDepth_eq_some {k depth : Nat} {x : Run α} {r r'' : Registry} {o : Except EvalError α}
    (h : RuleLang.atDepth k depth x r = some (o, r'')) :
    ∃ r', x (r.setDepth k depth) = some (o, r') ∧ r'' = r'.setDepth k (r.evaluations.get k).depth := by
  rw [Run.atDepth_eq_map, Option.map_eq_some_iff] at h
  obtain ⟨⟨o', r'⟩, hx, h⟩ := h
  cases h
  exact ⟨r', hx, rfl⟩

theorem Keeps.atDepth {k depth : Nat} {x : Run α} {y : Run β} (h : Keeps R x y) :
    Keeps R (RuleLang.atDepth k depth x) (RuleLang.atDepth k depth y) where
  evaluations_eq hr := by
    obtain ⟨r', hx, rfl⟩ := Run.atDepth_eq_some hr
    simp only [Registry.setDepth, h.evaluations_eq hx, Evaluations.setDepth_setDepth, Evaluations.setDepth_get]
  related hr := by
    obtain ⟨r', hx, -⟩ := Run.atDepth_eq_some hr
    exact h.related hx

theorem Keeps.evaluates {eval : (k depth : Nat) → Scope → Expr → Run Value}
    (h : ∀ k depth scope e, Keeps (Value.Renumbered Eq) (eval k depth scope e) (eval k depth scope e)) :
    Keeps.lifting.Evaluates (Function.Renumbered Eq) (fromCounter eval) (fromCounter eval) where
  host h := by
    cases h
    exact ⟨rfl, fun _ => rfl⟩
  closure hf := by
    cases hf with
    | closure =>
      exact ⟨_, _, _, _, rfl, fun a b _ => Keeps.read fun r => (h _ (r.evaluations.get _).depth _ _).forget⟩

/-- However much fuel there is, the evaluation of an expression leaves the counters as they were. -/
theorem evaluateNode_keeps (fuel k depth : Nat) (scope : Scope) (e : Expr) :
    Keeps (Value.Renumbered Eq) (evaluateNode fuel k depth scope e) (evaluateNode fuel k depth scope e) := by
  induction fuel generalizing k depth scope e with
  | zero => exact ⟨nofun, nofun⟩
  | succ fuel ih =>
    have hperform (f : Builtin ⊕ Function) (g : Builtin ⊕ Function) (args args' : List Value)
        (hfg : Callee.Related Eq (Function.Renumbered Eq) args.length f g)
        (h : Paired (Value.Renumbered Eq) args args') :
        Keeps (Value.Renumbered Eq) (atDepth k (depth + 1) (perform (fromCounter (evaluateNode fuel)) f args))
          (atDepth k (depth + 1) (perform (fromCounter (evaluateNode fuel)) g args')) :=
      Keeps.atDepth ((Keeps.evaluates ih).perform hfg h)
    have hclose (param : String) (body : Expr) : Keeps (Value.Renumbered Eq)
        (newClosure k scope param body : Run Value) (newClosure k scope param body : Run Value) := by
      constructor
      · intro r o r' h
        cases h
        rfl
      · intro r v r' h
        exact ⟨v, Value.renumbered_refl (fun _ => rfl) v⟩
    rw [evaluateNode]
    refine Keeps.read fun r => ?_
    by_cases hlimit : depth < (r.evaluations.get k).limit
    · simp only [hlimit, ↓reduceIte]
      refine Keeps.lifting.step_self (fun _ => rfl) Function.Renumbered.faithful ?_ ?_ ?_ ?_
      · exact fun name _ => (entries_renumbered_refl (fun _ => rfl) scope).lookup name
      · exact fun x _ => ih k (depth + 1) scope x
      · exact hperform _ _ _ _
      · exact fun param body _ => hclose param body
    · simp only [hlimit, ↓reduceIte]
      exact Keeps.lifting.throw rfl

/-- An action that leaves all counters as they were, if it ends, whether it fails or not. -/
def Run.Restores {α : Type} (x : Run α) : Prop :=
  ∀ r o r', x r = some (o, r') → r'.evaluations = r.evaluations

theorem evaluateNode_restores (fuel k depth : Nat) (scope : Scope) (e : Expr) :
    (evaluateNode fuel k depth scope e).Restores :=
  fun _ _ _ h => (evaluateNode_keeps fuel k depth scope e).evaluations_eq h

/-- So does every call, of a builtin, a host function or a closure. -/
theorem perform_restores (fuel : Nat) (f : Builtin ⊕ Function) (args : List Value) :
    (perform (fromCounter (evaluateNode fuel)) f args).Restores := by
  have hf : Callee.Related Eq (Function.Renumbered Eq) args.length f f := by
    cases f with
    | inl b => exact .builtin fun _ _ => rfl
    | inr f => exact .function (Function.renumbered_refl (fun _ => rfl) f)
  have hargs := items_renumbered_refl (ρ := Eq) (fun _ => rfl) args
  have hkeeps := (Keeps.evaluates (evaluateNode_keeps fuel)).perform hf hargs
  exact fun _ _ _ h => hkeeps.evaluations_eq h

end RuleLang
