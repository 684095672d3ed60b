import RuleLang.Eval.Run
import RuleLang.Proofs.Value.Related

/-!
# Relations that every run keeps

A `Lifting` relates the actions of two monads and is kept by returning, by sequencing and by failing with like
errors. The evaluator is written once for every monad, out of these three, so what a lifting says of the parts of an
expression it says of the whole. Here this is shown of the visits of lists and of the call of a function.
-/

namespace RuleLang

/-- A relation between actions, over any relation between their results, that is kept by what runs are made of. It
says which errors are alike; among them is every error of a wrong type with itself. -/
structure Lifting (m₁ m₂ : Type → Type) [Monad m₁] [MonadExceptOf EvalError m₁] [Monad m₂]
    [MonadExceptOf EvalError m₂] where
  errors : EvalError → EvalError → Prop
  rel : {α β : Type} → (α → β → Prop) → m₁ α → m₂ β → Prop
  mismatch : ∀ {e}, e.kind = .typeMismatch → errors e e
  pure : ∀ {α β : Type} {R : α → β → Prop} {a : α} {b : β}, R a b → rel R (Pure.pure a) (Pure.pure b)
  bind : ∀ {α β γ δ : Type} {R : α → β → Prop} {S : γ → δ → Prop} {x : m₁ α} {y : m₂ β} {f : α → m₁ γ}
    {g : β → m₂ δ}, rel R x y → (∀ a b, R a b → rel S (f a) (g b)) → rel S (x >>= f) (y >>= g)
  throw : ∀ {α β : Type} {R : α → β → Prop} {e e' : EvalError}, errors e e' → rel R (throw e) (throw e')

namespace Lifting

variable {m₁ m₂ : Type → Type} [Monad m₁] [MonadExceptOf EvalError m₁] [Monad m₂] [MonadExceptOf EvalError m₂]
  (L : Lifting m₁ m₂)

theorem outcome {α β : Type} {R : α → β → Prop} {x : Except EvalError α} {y : Except EvalError β}
    (h : Outcome.Like L.errors R x y) : L.rel R (ofExcept x) (ofExcept y) := by
  cases h with
  | ok h => exact L.pure h
  | error he => exact L.throw he

/-- What can only fail with a wrong type. -/
theorem typed {α β : Type} {R : α → β → Prop} {x : Except EvalError α} {y : Except EvalError β}
    (h : Outcome.Like EvalError.Mismatch R x y) : L.rel R (ofExcept x) (ofExcept y) := by
  cases h with
  | ok h => exact L.pure h
  | error he =>
    obtain ⟨rfl, hkind⟩ := he
    exact L.throw (L.mismatch hkind)

section Lists

variable {α β : Type} {R : α → β → Prop} {as : List α} {bs : List β}

/-- The loop of `mapM` collects the results in reverse. -/
theorem mapM_loop {γ δ : Type} {S : γ → δ → Prop} {f : α → m₁ γ} {g : β → m₂ δ}
    (hfg : ∀ a b, R a b → L.rel S (f a) (g b)) (h : Paired R as bs) {cs : List γ} {ds : List δ}
    (hacc : Paired S cs ds) :
    L.rel (fun xs ys => Paired S xs ys ∧ xs.length = cs.length + as.length) (List.mapM.loop f as cs)
      (List.mapM.loop g bs ds) := by
  induction h generalizing cs ds with
  | nil => exact L.pure ⟨hacc.reverse, List.length_reverse⟩
  | @cons a b as bs hab _ ih =>
    refine L.bind (hfg _ _ hab) fun c d hcd => ?_
    have hlength : (a :: as).length + cs.length = as.length + (c :: cs).length := by
      simp only [List.length_cons]
      omega
    rw [Nat.add_comm, hlength, Nat.add_comm]
    exact ih (.cons hcd hacc)

/-- The results are related one by one, and there is one for each item. -/
theorem mapM {γ δ : Type} {S : γ → δ → Prop} {f : α → m₁ γ} {g : β → m₂ δ}
    (hfg : ∀ a b, R a b → L.rel S (f a) (g b)) (h : Paired R as bs) :
    L.rel (fun xs ys => Paired S xs ys ∧ xs.length = as.length) (as.mapM f) (bs.mapM g) := by
  rw [← Nat.zero_add as.length]
  exact L.mapM_loop hfg h .nil

/-- The loop of `filterM` collects what is kept in reverse. -/
theorem filterAuxM {f : α → m₁ Bool} {g : β → m₂ Bool} (hfg : ∀ a b, R a b → L.rel Eq (f a) (g b))
    (h : Paired R as bs) {cs : List α} {ds : List β} (hacc : Paired R cs ds) :
    L.rel (Paired R) (List.filterAuxM f as cs) (List.filterAuxM g bs ds) := by
  induction h generalizing cs ds with
  | nil => exact L.pure hacc
  | cons hab _ ih =>
    refine L.bind (hfg _ _ hab) fun c d hcd => ?_
    subst hcd
    cases c with
    | false => exact ih hacc
    | true => exact ih (.cons hab hacc)

theorem filterM {f : α → m₁ Bool} {g : β → m₂ Bool} (hfg : ∀ a b, R a b → L.rel Eq (f a) (g b))
    (h : Paired R as bs) : L.rel (Paired R) (as.filterM f) (bs.filterM g) :=
  L.bind (L.filterAuxM hfg h .nil) fun _ _ hkept => L.pure hkept.reverse

theorem foldlM {γ : Type} {f : γ → α → m₁ γ} {g : γ → β → m₂ γ}
    (hfg : ∀ c a b, R a b → L.rel Eq (f c a) (g c b)) (h : Paired R as bs) (init : γ) :
    L.rel Eq (as.foldlM f init) (bs.foldlM g init) := by
  induction h generalizing init with
  | nil => exact L.pure rfl
  | cons hab _ ih =>
    refine L.bind (hfg init _ _ hab) fun c d hcd => ?_
    subst hcd
    exact ih c

theorem anyM {f : α → m₁ Bool} {g : β → m₂ Bool} (hfg : ∀ a b, R a b → L.rel Eq (f a) (g b))
    (h : Paired R as bs) : L.rel Eq (as.anyM f) (bs.anyM g) := by
  induction h with
  | nil => exact L.pure rfl
  | cons hab _ ih =>
    refine L.bind (hfg _ _ hab) fun c d hcd => ?_
    subst hcd
    cases c with
    | false => exact ih
    | true => exact L.pure rfl

theorem allM {f : α → m₁ Bool} {g : β → m₂ Bool} (hfg : ∀ a b, R a b → L.rel Eq (f a) (g b))
    (h : Paired R as bs) : L.rel Eq (as.allM f) (bs.allM g) := by
  induction h with
  | nil => exact L.pure rfl
  | cons hab _ ih =>
    refine L.bind (hfg _ _ hab) fun c d hcd => ?_
    subst hcd
    cases c with
    | false => exact L.pure rfl
    | true => exact ih

end Lists

/--
What a lifting must know of functions: related ones have one number, and are the same host function or two
closures whose bodies are evaluated alike for related arguments. A host function may refuse its number of arguments.
-/
structure Evaluates (F : Function → Function → Prop) (eval₁ : Evaluator m₁) (eval₂ : Evaluator m₂) : Prop where
  host : ∀ {id behaviour g}, F (.host id behaviour) g → g = .host id behaviour ∧
    ∀ given, L.errors (.hostArity given) (.hostArity given)
  closure : ∀ {id k param body scope g}, F (.closure id k param body scope) g →
    ∃ k' param' body' scope', g = .closure id k' param' body' scope' ∧
      ∀ a b, Value.Related F a b → L.rel (Value.Related F) (eval₁ k (Scope.bind scope param a) body)
        (eval₂ k' (Scope.bind scope' param' b) body')

section Calls

variable {L} {F : Function → Function → Prop} {eval₁ : Evaluator m₁} {eval₂ : Evaluator m₂}

/-- Related functions do alike with related arguments. -/
theorem Evaluates.call (hF : L.Evaluates F eval₁ eval₂) {f g : Function} (hfg : F f g) {args args' : List Value}
    (h : Paired (Value.Related F) args args') :
    L.rel (Value.Related F) (f.call eval₁ args) (g.call eval₂ args') := by
  cases f with
  | closure id k param body scope =>
    obtain ⟨k', param', body', scope', rfl, hbody⟩ := hF.closure hfg
    rw [Function.call, Function.call]
    exact hbody _ _ (h.headD .null)
  | host id behaviour =>
    obtain ⟨rfl, harity⟩ := hF.host hfg
    cases behaviour with
    | double =>
      rw [Function.call.eq_def, Function.call.eq_def]
      cases h with
      | nil => exact L.pure (.number _)
      | cons hv _ => cases hv <;> exact L.pure (.number _)
    | arguments =>
      rw [Function.call, Function.call]
      exact L.pure (.list h)
    | greet =>
      rw [Function.call, Function.call]
      exact L.pure (.string _)
    | fail =>
      rw [Function.call, Function.call]
      exact L.throw (L.mismatch rfl)
    | failArity =>
      rw [Function.call, Function.call, h.length_eq]
      exact L.throw (harity _)
    | apply =>
      rw [Function.call.eq_def, Function.call.eq_def]
      cases h with
      | nil => exact L.pure .null
      | cons hv h =>
        cases hv with
        | function hf => exact hF.call hf h
        | _ => exact L.pure .null
    | twice =>
      rw [Function.call.eq_def, Function.call.eq_def]
      cases h with
      | nil => exact L.pure .null
      | cons hv h =>
        cases hv with
        | function hf =>
          cases h with
          | nil => exact L.pure .null
          | cons hx h => exact L.bind (hF.call hf (.cons hx .nil)) fun _ _ hy => hF.call hf (.cons hy .nil)
        | _ => exact L.pure .null
termination_by args.length

end Calls

end Lifting

end RuleLang
