import Mathlib.Control.Monad.Writer
import RuleLang.Proofs.Eval.Keeping
import RuleLang.Proofs.Session.Building
import RuleLang.Proofs.Value.Functions

/-!
# What happens during an evaluation

`recordNode` is the evaluator with one addition: it writes down what happens. When a node is entered, the names that it
sees are written down, when it is left, its value, and when a lambda has been evaluated, the function that it has made.
So every function that exists at some moment of an evaluation has been written down by then, or has been captured by one
that has. What is written down stays when the evaluation fails. Nothing else changes: without what it writes down,
the evaluator does what it did.
-/

namespace RuleLang

/-- Something that happens: a node is entered, with what it sees; a function is made; a node is left with a value. -/
inductive Event where
  | enter (scope : Scope)
  | create (f : Function)
  | leave (v : Value)

namespace Event

/-- The functions that an event shows. -/
def functions : Event → List Function
  | .enter scope => Value.functionsOfEntries scope
  | .create f => [f]
  | .leave v => v.functions

def created : Event → List Function
  | .create f => [f]
  | _ => []

/-- The functions that are made in the course of events, in order. -/
def ledger (events : List Event) : List Function :=
  events.flatMap created

/-- A node is left with its value, if it has one. -/
def left : Except EvalError Value → List Event
  | .ok v => [.leave v]
  | .error _ => []

/-- What happens at the end of a node. The value of a lambda has just been made. -/
def ofOutcome : Expr → Except EvalError Value → List Event
  | .lambda .., .ok (.function f) => [.create f, .leave (.function f)]
  | _, o => left o

end Event

/-- A run that writes down what happens. -/
abbrev Recording := ExceptT EvalError (StateT Registry (WriterT (List Event) Option))

namespace Recording

variable {α : Type}

def unfinished : Recording α := fun _ => none

/-- Writes down what happens before and after an action. -/
def around (before : List Event) (after : Except EvalError α → List Event) (x : Recording α) : Recording α :=
  fun r => (x r).map fun p => (p.1, before ++ p.2 ++ after p.1.1)

end Recording

/-- Evaluates an expression at a depth of the evaluation `k` and writes down what happens. -/
def recordNode : (fuel : Nat) → (k depth : Nat) → Scope → Expr → Recording Value
  | 0, _, _, _, _ => Recording.unfinished
  | fuel + 1, k, depth, scope, e =>
    Recording.around [.enter scope] (Event.ofOutcome e) (enter (recordNode fuel) k depth scope e)

namespace Recording

/-- Evaluates an expression in the evaluation `k`, from depth zero on. -/
def evaluate (k : Nat) (scope : Scope) (e : Expr) : Recording Value := do
  let r ← getThe Registry
  recordNode r.fuel k 0 scope e

/-- Calls functions. -/
def call (f : Function) (args : List Value) : Recording Value := do
  let r ← getThe Registry
  f.call (fromCounter (recordNode r.fuel)) args

/-- What happens in a run. -/
def events {α : Type} (x : Recording α) (r : Registry) : List Event :=
  ((x r).map Prod.snd).getD []

section Parts

variable {α β : Type}

theorem bind_apply (x : Recording α) (f : α → Recording β) (r : Registry) : (x >>= f) r = (x r).bind fun p =>
    match p.1.1 with
    | .ok a => (f a p.1.2).map fun q => (q.1, p.2 ++ q.2)
    | .error e => some ((.error e, p.1.2), p.2) := by
  show Option.bind (x r) _ = _
  congr 1
  funext p
  obtain ⟨⟨o, r'⟩, noted⟩ := p
  cases o with
  | ok a => rfl
  | error e =>
    show some ((Except.error e, r'), noted ++ []) = _
    rw [List.append_nil]

/-- A sequence that ends has ended in its first part, or goes on from its result. -/
theorem bind_eq_some {x : Recording α} {f : α → Recording β} {r r'' : Registry} {o : Except EvalError β}
    {noted : List Event} (h : (x >>= f) r = some ((o, r''), noted)) :
    (∃ e, x r = some ((.error e, r''), noted) ∧ o = .error e) ∨
      ∃ a r' before after, x r = some ((.ok a, r'), before) ∧ f a r' = some ((o, r''), after) ∧
        noted = before ++ after := by
  rw [bind_apply] at h
  generalize x r = result at h ⊢
  rcases result with _ | ⟨⟨e | a, r'⟩, before⟩
  · cases h
  · cases h
    exact .inl ⟨e, rfl, rfl⟩
  · obtain ⟨⟨p, after⟩, hf, h⟩ := Option.map_eq_some_iff.1 h
    cases h
    exact .inr ⟨a, r', before, after, rfl, hf, rfl⟩

theorem observe_eq_map (x : Recording α) (r : Registry) :
    observe x r = (x r).map fun p => ((.ok p.1.1, p.1.2), p.2) := by
  show Option.bind (Option.bind (x r) _) _ = _
  rcases x r with _ | ⟨⟨_ | a, r'⟩, noted⟩
  · rfl
  · show some (_, (noted ++ []) ++ []) = some (_, noted)
    rw [List.append_nil, List.append_nil]
  · show some (_, (noted ++ []) ++ []) = some (_, noted)
    rw [List.append_nil, List.append_nil]

/-- What happens under another counter is the same as without, and the counter is put back. -/
theorem atDepth_eq_map (k depth : Nat) (x : Recording α) (r : Registry) :
    atDepth k depth x r = (x (r.setDepth k depth)).map fun p =>
      ((p.1.1, p.1.2.setDepth k (r.evaluations.get k).depth), p.2) := by
  show Option.map (fun q => (q.1, [] ++ q.2)) ((observe x >>= _) (r.setDepth k depth)) = _
  rw [bind_apply, observe_eq_map]
  rcases x (r.setDepth k depth) with _ | ⟨⟨_ | a, r'⟩, noted⟩
  · rfl
  · show some (_, [] ++ (noted ++ [])) = some (_, noted)
    rw [List.append_nil, List.nil_append]
  · show some (_, [] ++ (noted ++ [])) = some (_, noted)
    rw [List.append_nil, List.nil_append]

end Parts

end Recording

section Erasure

variable {α β : Type} {R : α → β → Prop} {x : Recording α} {y : Run β}

/-- How a recording ends and how a run does: neither ends, or both with related outcomes and one registry. -/
abbrev Erased (R : α → β → Prop) : Option ((Except EvalError α × Registry) × List Event) →
    Option (Except EvalError β × Registry) → Prop :=
  Option.Rel fun p q => p.1.2 = q.2 ∧ Outcome.Related R p.1.1 q.1

/-- A recording does what a run does. -/
def Erases (R : α → β → Prop) (x : Recording α) (y : Run β) : Prop :=
  ∀ r, Erased R (x r) (y r)

/-- What is written down makes no difference. -/
theorem Erased.map {a : Option ((Except EvalError α × Registry) × List Event)}
    {b : Option (Except EvalError β × Registry)} (h : Erased R a b)
    (f : (Except EvalError α × Registry) × List Event → List Event) : Erased R (a.map fun p => (p.1, f p)) b := by
  cases h with
  | none => exact .none
  | some hpq => exact .some hpq

def Erases.lifting : Lifting Recording Run where
  errors := Eq
  rel := Erases
  mismatch _ := rfl
  pure h _ := .some ⟨rfl, .ok h⟩
  throw he _ := by
    subst he
    exact .some ⟨rfl, .error _⟩
  bind := by
    intro _ _ _ _ _ _ x y f g hxy hfg r
    have hr := hxy r
    rw [Recording.bind_apply]
    cases hy : y r with
    | none =>
      rw [hy] at hr
      generalize x r = a at hr ⊢
      cases hr
      have hbind : (y >>= g) r = none := by
        show (y r >>= _) = _
        rw [hy]
        rfl
      rw [hbind]
      exact .none
    | some q =>
      rw [hy] at hr
      obtain ⟨o', r'⟩ := q
      generalize x r = a at hr ⊢
      cases hr with
      | @some p _ hpq =>
        obtain ⟨⟨o, r''⟩, noted⟩ := p
        obtain ⟨hregistry, ho⟩ := hpq
        dsimp only at hregistry ho
        subst hregistry
        cases ho with
        | error e =>
          rw [Run.bind_error hy]
          exact .some ⟨rfl, .error e⟩
        | @ok a b hab =>
          rw [Run.bind_ok hy]
          have hnext := hfg a b hab r''
          exact hnext.map fun q => noted ++ q.2

theorem Erases.atDepth (h : Erases R x y) (k depth : Nat) :
    Erases R (RuleLang.atDepth k depth x) (RuleLang.atDepth k depth y) := by
  intro r
  rw [Recording.atDepth_eq_map, Run.atDepth_eq_map]
  have hr := h (r.setDepth k depth)
  generalize x (r.setDepth k depth) = a at hr ⊢
  generalize y (r.setDepth k depth) = b at hr ⊢
  cases hr with
  | none => exact .none
  | some hpq => exact .some ⟨congrArg (Registry.setDepth · k _) hpq.1, hpq.2⟩

theorem Erases.read {f : Registry → Recording α} {g : Registry → Run β} (h : ∀ r, Erases R (f r) (g r)) :
    Erases R (getThe Registry >>= f) (getThe Registry >>= g) := by
  intro r
  rw [Recording.bind_apply]
  exact (h r r).map fun q => [] ++ q.2

theorem Erases.around (h : Erases R x y) (before : List Event) (after : Except EvalError α → List Event) :
    Erases R (Recording.around before after x) y :=
  fun r => (h r).map fun p => before ++ p.2 ++ after p.1.1

theorem Erases.newClosure (k : Nat) (scope : Scope) (param : String) (body : Expr) :
    Erases (Value.Related Eq) (newClosure k scope param body) (newClosure k scope param body) :=
  fun _ => .some ⟨rfl, .ok (.function rfl)⟩

theorem Erases.evaluates {eval : (k depth : Nat) → Scope → Expr → Recording Value}
    {eval' : (k depth : Nat) → Scope → Expr → Run Value}
    (h : ∀ k depth scope e, Erases (Value.Related Eq) (eval k depth scope e) (eval' k depth scope e)) :
    Erases.lifting.Evaluates Eq (fromCounter eval) (fromCounter eval') where
  host h := ⟨h.symm, fun _ => rfl⟩
  closure hf := by
    refine ⟨_, _, _, _, hf.symm, fun a b hab => Erases.read fun _ => ?_⟩
    obtain rfl := hab.eq
    exact h _ _ _ _

/-- Whatever is written down, an expression is evaluated as it is without. -/
theorem recordNode_erases (fuel k depth : Nat) (scope : Scope) (e : Expr) :
    Erases (Value.Related Eq) (recordNode fuel k depth scope e) (evaluateNode fuel k depth scope e) := by
  induction fuel generalizing k depth scope e with
  | zero => exact fun _ => .none
  | succ fuel ih =>
    rw [recordNode, evaluateNode]
    refine Erases.around (Erases.read fun r => ?_) _ _
    by_cases hlimit : depth < (r.evaluations.get k).limit
    · simp only [hlimit, ↓reduceIte]
      refine Erases.lifting.step_self (fun _ => rfl) (.of_id_eq fun _ _ => congrArg Function.id) ?_ ?_ ?_ ?_
      · exact fun name _ => Entries.get?_related (entries_related_refl (fun _ => rfl) scope) name
      · exact fun x _ => ih k (depth + 1) scope x
      · exact fun hfg hargs => Erases.atDepth ((Erases.evaluates ih).perform hfg hargs) k (depth + 1)
      · exact fun param body _ => Erases.newClosure k scope param body
    · simp only [hlimit, ↓reduceIte]
      exact Erases.lifting.throw rfl

/-- Where a run ends, a recording that does the same ends in the same way. -/
theorem Erases.eq_some {x : Recording Value} {y : Run Value} (h : Erases (Value.Related Eq) x y) {r : Registry}
    {q : Except EvalError Value × Registry} (hy : y r = some q) : x r = some (q, x.events r) := by
  have hr := h r
  rw [hy] at hr
  rw [Recording.events]
  generalize x r = a at hr ⊢
  cases hr with
  | @some p _ hpq =>
    obtain ⟨⟨o, r'⟩, noted⟩ := p
    obtain ⟨rfl, ho⟩ := hpq
    obtain rfl := ho.eq
    rfl

/-- An evaluation that is recorded is the evaluation. -/
theorem Recording.evaluate_eq (k : Nat) (scope : Scope) (e : Expr) (r : Registry) :
    Recording.evaluate k scope e r =
      some ((Registry.evaluate k scope e).run r, (Recording.evaluate k scope e).events r) := by
  have herases : Erases (Value.Related Eq) (Recording.evaluate k scope e) (Run.evaluate k scope e) :=
    Erases.read fun r => recordNode_erases r.fuel k 0 scope e
  exact herases.eq_some (Registry.eq_some_run (Run.evaluate_ends k scope e) r)

/-- So is a call. -/
theorem Recording.call_eq (f : Function) (args : List Value) (r : Registry) :
    Recording.call f args r = some ((Registry.call f args).run r, (Recording.call f args).events r) := by
  have herases : Erases (Value.Related Eq) (Recording.call f args) (Run.call f args) :=
    Erases.read fun r => (Erases.evaluates (recordNode_erases r.fuel)).call rfl (items_related_refl (fun _ => rfl) args)
  exact herases.eq_some (Registry.eq_some_run (Run.call_ends f args) r)

end Erasure

end RuleLang
