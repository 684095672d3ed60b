import RuleLang.Proofs.Eval.Keeping
import RuleLang.Proofs.Host.Routine

/-!
# Runs that follow one another

Two runs of like expressions, in which the evaluations of the second have no less room than those of the first: the
second ends as the first does. Where the second has more room, the first may also end because it nested too deep,
and then nothing is said of the second. With the same fuel, the first ends whenever the second does.

The second run may start when more functions have been made, so that those it makes have other numbers: `shift` says
by how many. What makes errors, functions and places alike is left open. A `Likeness` says what it takes: like functions
have bodies that are evaluated alike and numbers that are the same or shifted, and lambdas at like places make like
functions.
-/

namespace RuleLang

/-- Whether an evaluation or a call failed because it nested deeper than its limit. -/
def TooDeep {α : Type} (o : Except EvalError α) : Prop :=
  ∃ e, o = .error e ∧ e.kind = .depthExceeded

theorem tooDeep_depthExceeded {α : Type} (limit : Nat) :
    TooDeep (.error (.depthExceeded limit) : Except EvalError α) :=
  ⟨_, rfl, rfl⟩

theorem not_tooDeep_ok {α : Type} (a : α) : ¬TooDeep (.ok a : Except EvalError α) := by
  intro h
  obtain ⟨_, ho, -⟩ := h
  cases ho

theorem TooDeep.error {α β : Type} {e : EvalError} (h : TooDeep (.error e : Except EvalError α)) :
    TooDeep (.error e : Except EvalError β) := by
  obtain ⟨_, he, hkind⟩ := h
  cases he
  exact ⟨e, rfl, hkind⟩

/--
The evaluations of one run against those that `ρ` puts in their place in another run: these have no lower limits and
no higher counters, and if nothing is to fail too deep in one run only, then the same.
-/
structure Roomier (lax : Prop) (ρ : Nat → Nat → Prop) (es es' : Evaluations) : Prop where
  limit_le : ∀ {i j}, ρ i j → (es.get i).limit ≤ (es'.get j).limit
  depth_le : ∀ {i j}, ρ i j → (es'.get j).depth ≤ (es.get i).depth
  source : ∀ {i i' j}, ρ i j → ρ i' j → i = i'
  exact : ∀ {i j}, ¬lax → ρ i j → es.get i = es'.get j
  target : ∀ {i j j'}, ¬lax → ρ i j → ρ i j' → j = j'

/-- Evaluations that are the same under a renumbering have the same room. -/
theorem Renumbering.roomier {lax : Prop} {ρ : Nat → Nat → Prop} {es es' : Evaluations} (h : Renumbering ρ es es') :
    Roomier lax ρ es es' where
  limit_le hij := Nat.le_of_eq (congrArg Evaluation.limit (h.agree hij))
  depth_le hij := Nat.le_of_eq (congrArg Evaluation.depth (h.agree hij).symm)
  source hij hij' := (h.unique hij hij').2 rfl
  exact _ hij := h.agree hij
  target _ hij hij' := (h.unique hij hij').1 rfl

theorem Roomier.refl {lax : Prop} (es : Evaluations) : Roomier lax Eq es es :=
  (Renumbering.refl es).roomier

/-- A nesting in one run and a nesting no deeper in the other. -/
theorem Roomier.setDepth {lax : Prop} {ρ : Nat → Nat → Prop} {es es' : Evaluations} (h : Roomier lax ρ es es')
    {k k' depth depth' : Nat} (hk : ρ k k') (hlt : k < es.length) (hlt' : k' < es'.length)
    (hcounter : (es.get k).depth ≤ depth) (hdepth : depth' ≤ depth) (hexact : ¬lax → depth = depth') :
    Roomier lax ρ (es.setDepth k depth) (es'.setDepth k' depth') where
  limit_le hij := by
    rw [Evaluations.limit_get_setDepth, Evaluations.limit_get_setDepth]
    exact h.limit_le hij
  depth_le := by
    intro i j hij
    by_cases hj : j = k'
    · subst hj
      obtain rfl := h.source hij hk
      rw [es.get_setDepth _ hlt, es'.get_setDepth _ hlt']
      exact hdepth
    · rw [es'.get_setDepth_of_ne _ _ hj]
      have hle := h.depth_le hij
      by_cases hi : i = k
      · subst hi
        rw [es.get_setDepth _ hlt]
        exact Nat.le_trans hle hcounter
      · rwa [es.get_setDepth_of_ne _ _ hi]
  source := h.source
  exact := by
    intro i j hlax hij
    by_cases hi : i = k
    · subst hi
      obtain rfl := h.target hlax hij hk
      rw [es.get_setDepth _ hlt, es'.get_setDepth _ hlt', h.exact hlax hij, hexact hlax]
    · have hj : j ≠ k' := fun hj => hi (h.source hij (hj ▸ hk))
      rw [es.get_setDepth_of_ne _ _ hi, es'.get_setDepth_of_ne _ _ hj, h.exact hlax hij]
  target := h.target

section Follows

variable {α β : Type} {E : EvalError → EvalError → Prop} {lax even : Prop} {first shift : Nat}
  {es es' : Evaluations} {R : α → β → Prop}

/--
Whatever the number of functions made so far, from `first` on and in the other run `shift` more: if an action ends,
then it puts the counters back, and the other action ends with a related outcome and makes the same number of
functions, unless the first failed too deep where that is let pass. Where the two are `even`, which is that they have
the same fuel, the first ends if the other does.
-/
structure Follows (E : EvalError → EvalError → Prop) (lax even : Prop) (first shift : Nat) (es es' : Evaluations)
    (R : α → β → Prop) (x : Run α) (y : Run β) : Prop where
  ends : ∀ {n o r}, first ≤ n → x ⟨es, n⟩ = some (o, r) → ∃ n', n ≤ n' ∧ r = ⟨es, n'⟩ ∧
    ((lax ∧ TooDeep o) ∨ ∃ o', y ⟨es', n + shift⟩ = some (o', ⟨es', n' + shift⟩) ∧ Outcome.Like E R o o')
  isSome : ∀ {n}, even → first ≤ n → (y ⟨es', n + shift⟩).isSome → (x ⟨es, n⟩).isSome

/-- An action that has no fuel is followed by any, and is even with another one of its kind. -/
theorem Follows.unfinished {y : Run β} (h : even → y = Run.unfinished) :
    Follows E lax even first shift es es' R Run.unfinished y where
  ends _ hx := nomatch hx
  isSome heven _ hy := by
    rw [h heven] at hy
    cases hy

/-- Two actions that end follow one another if their outcomes are related. -/
theorem Follows.of_eq (made : Nat) {x : Run α} {y : Run β} {o : Nat → Except EvalError α}
    {o' : Nat → Except EvalError β} (hx : ∀ n, x ⟨es, n⟩ = some (o n, ⟨es, n + made⟩))
    (hy : ∀ n, y ⟨es', n⟩ = some (o' n, ⟨es', n + made⟩))
    (ho : ∀ n, first ≤ n → Outcome.Like E R (o n) (o' (n + shift))) :
    Follows E lax even first shift es es' R x y where
  ends {n o₁ r} hn h := by
    rw [hx] at h
    cases h
    refine ⟨n + made, Nat.le_add_right .., rfl, .inr ⟨_, ?_, ho n hn⟩⟩
    rw [hy, Nat.add_right_comm]
  isSome {n} _ _ _ := by
    rw [hx]
    rfl

/-- Anything may follow an action that fails because it nested too deep, where that is let pass. -/
theorem Follows.tooDeep (h : lax) (limit : Nat) {y : Run β} :
    Follows E lax even first shift es es' R (throw (.depthExceeded limit)) y where
  ends {n o r} _ hx := by
    cases hx
    exact ⟨n, Nat.le_refl n, rfl, .inl ⟨h, tooDeep_depthExceeded limit⟩⟩
  isSome _ _ _ := rfl

/-- Following is kept by all that runs are made of. -/
def Follows.lifting (hmismatch : ∀ {e : EvalError}, e.kind = .typeMismatch → E e e) (lax even : Prop)
    (first shift : Nat) (es es' : Evaluations) : Lifting Run Run where
  errors := E
  rel := Follows E lax even first shift es es'
  mismatch := hmismatch
  pure hab := .of_eq 0 (fun _ => rfl) (fun _ => rfl) fun _ _ => .ok hab
  throw he := .of_eq 0 (fun _ => rfl) (fun _ => rfl) fun _ _ => .error he
  bind := by
    intro _ _ _ _ _ _ x y f g hxy hfg
    constructor
    · intro n o r hn h
      rcases Run.bind_eq_some h with ⟨e, hx, rfl⟩ | ⟨a, r', hx, hf⟩
      · obtain ⟨n', hn', rfl, ⟨hlax, hdeep⟩ | ⟨_, hy, ho⟩⟩ := hxy.ends hn hx
        · exact ⟨n', hn', rfl, .inl ⟨hlax, hdeep.error⟩⟩
        · cases ho with
          | error he => exact ⟨n', hn', rfl, .inr ⟨_, Run.bind_error hy, .error he⟩⟩
      · obtain ⟨n', hn', rfl, ⟨-, _, ho, -⟩ | ⟨_, hy, ho⟩⟩ := hxy.ends hn hx
        · cases ho
        · cases ho with
          | ok hab =>
            obtain ⟨n'', hn'', hr, hrest⟩ := (hfg _ _ hab).ends (Nat.le_trans hn hn') hf
            rw [Run.bind_ok hy]
            exact ⟨n'', Nat.le_trans hn' hn'', hr, hrest⟩
    · intro n heven hn h
      obtain ⟨⟨o, r⟩, hx⟩ := Option.isSome_iff_exists.1 (hxy.isSome heven hn (Run.isSome_of_bind h))
      cases o with
      | error e => simp only [Run.bind_error hx, Option.isSome_some]
      | ok a =>
        obtain ⟨n', hn', rfl, ⟨-, _, ho, -⟩ | ⟨_, hy, ho⟩⟩ := hxy.ends hn hx
        · cases ho
        · cases ho with
          | ok hab =>
            rw [Run.bind_ok hx]
            rw [Run.bind_ok hy] at h
            exact (hfg _ _ hab).isSome heven (Nat.le_trans hn hn') h

theorem Follows.read {f : Registry → Run α} {g : Registry → Run β}
    (h : ∀ n, Follows E lax even first shift es es' R (f ⟨es, n⟩) (g ⟨es', n + shift⟩)) :
    Follows E lax even first shift es es' R (getThe Registry >>= f) (getThe Registry >>= g) where
  ends hn hx := (h _).ends hn hx
  isSome heven hn hy := (h _).isSome heven hn hy

theorem Follows.atDepth {k k' depth depth' : Nat} {x : Run α} {y : Run β}
    (h : Follows E lax even first shift (es.setDepth k depth) (es'.setDepth k' depth') R x y) :
    Follows E lax even first shift es es' R (RuleLang.atDepth k depth x) (RuleLang.atDepth k' depth' y) where
  ends {n o r} hn hr := by
    obtain ⟨r', hx, rfl⟩ := Run.atDepth_eq_some hr
    obtain ⟨n', hn', rfl, hrest⟩ := h.ends hn hx
    refine ⟨n', hn', ?_, hrest.imp_right ?_⟩
    · simp only [Registry.setDepth, Evaluations.setDepth_setDepth, Evaluations.setDepth_get]
    · rintro ⟨o', hy, ho⟩
      have hy := Run.atDepth_apply (r := ⟨es', n + shift⟩) hy
      simp only [Registry.setDepth, Evaluations.setDepth_setDepth, Evaluations.setDepth_get] at hy
      exact ⟨o', hy, ho⟩
  isSome heven hn hy := by
    rw [Run.atDepth_eq_map, Option.isSome_map] at hy ⊢
    exact h.isSome heven hn hy

end Follows

/-- Routines that do the same with related values. -/
inductive Routine.Related (F : Function → Function → Prop) : Routine → Routine → Prop
  | done {o o' : Except EvalError Value} :
      Outcome.Related (Value.Related F) o o' → Related F (.done o) (.done o')
  | call {f g : Function} {args args' : List Value} {next next' : Except EvalError Value → Routine} :
      F f g → Paired (Value.Related F) args args' →
      (∀ o o', Outcome.Related (Value.Related F) o o' → Related F (next o) (next' o')) →
      Related F (.call f args next) (.call g args' next')
  | make {behaviour : HostFunction} {next next' : Function → Routine} :
      (∀ id, F (.host id behaviour) (.host id behaviour) →
        Related F (next (.host id behaviour)) (next' (.host id behaviour))) →
      Related F (.make behaviour next) (.make behaviour next')

/-- Routines that do like things with related values and like errors. -/
inductive Routine.Like (E : EvalError → EvalError → Prop) (F : Function → Function → Prop) : Routine → Routine → Prop
  | done {o o' : Except EvalError Value} : Outcome.Like E (Value.Related F) o o' → Like E F (.done o) (.done o')
  | call {f g : Function} {args args' : List Value} {next next' : Except EvalError Value → Routine} :
      F f g → Paired (Value.Related F) args args' →
      (∀ o o', Outcome.Like E (Value.Related F) o o' → Like E F (next o) (next' o')) →
      Like E F (.call f args next) (.call g args' next')
  | make {behaviour : HostFunction} {next next' : Function → Routine} :
      (∀ id, F (.host id behaviour) (.host id behaviour) →
        Like E F (next (.host id behaviour)) (next' (.host id behaviour))) →
      Like E F (.make behaviour next) (.make behaviour next')

/-- Routines that do like things, whatever numbers the functions that they make get. -/
inductive Routine.Matches (E : EvalError → EvalError → Prop) (F : Function → Function → Prop) :
    Routine → Routine → Prop
  | done {o o' : Except EvalError Value} : Outcome.Like E (Value.Related F) o o' → Matches E F (.done o) (.done o')
  | call {f g : Function} {args args' : List Value} {next next' : Except EvalError Value → Routine} :
      F f g → Paired (Value.Related F) args args' →
      (∀ o o', Outcome.Like E (Value.Related F) o o' → Matches E F (next o) (next' o')) →
      Matches E F (.call f args next) (.call g args' next')
  | make {behaviour : HostFunction} {next next' : Function → Routine} :
      (∀ id id', F (.host id behaviour) (.host id' behaviour) →
        Matches E F (next (.host id behaviour)) (next' (.host id' behaviour))) →
      Matches E F (.make behaviour next) (.make behaviour next')

/-- Routines are related if they do like things where only the same errors are alike. -/
theorem Routine.related_iff_like {F : Function → Function → Prop} {p p' : Routine} :
    Routine.Related F p p' ↔ Routine.Like Eq F p p' := by
  constructor
  · intro h
    induction h with
    | done ho => exact .done (Outcome.related_iff_like.1 ho)
    | call hfg hargs _ ih => exact .call hfg hargs fun o o' ho => ih o o' (Outcome.related_iff_like.2 ho)
    | make _ ih => exact .make ih
  · intro h
    induction h with
    | done ho => exact .done (Outcome.related_iff_like.2 ho)
    | call hfg hargs _ ih => exact .call hfg hargs fun o o' ho => ih o o' (Outcome.related_iff_like.1 ho)
    | make _ ih => exact .make ih

/-- Host functions that look at functions only by calling and comparing them. -/
def Hosts.Discreet (hosts : Hosts) : Prop :=
  ∀ (F : Function → Function → Prop), (∀ f g, F f g → f.id = g.id) →
    ∀ id behaviour args args', Paired (Value.Related F) args args' →
      Routine.Related F (hosts id behaviour args) (hosts id behaviour args')

section Routines

variable {E : EvalError → EvalError → Prop} {F : Function → Function → Prop}

/-- Where functions keep their numbers, like routines match. -/
theorem Routine.Like.matches (hid : ∀ f g, F f g → f.id = g.id) {p p' : Routine} (h : Routine.Like E F p p') :
    Routine.Matches E F p p' := by
  induction h with
  | done ho => exact .done ho
  | call hfg hargs _ ih => exact .call hfg hargs ih
  | make _ ih =>
    refine .make fun id id' hfg => ?_
    obtain rfl : id = id' := hid _ _ hfg
    exact ih id hfg

theorem Routine.Matches.like {p p' : Routine} (h : Routine.Matches E F p p') : Routine.Like E F p p' := by
  induction h with
  | done ho => exact .done ho
  | call hfg hargs _ ih => exact .call hfg hargs ih
  | make _ ih => exact .make fun id => ih id id

/-- Every routine matches itself. -/
theorem Routine.matches_self (p : Routine) : Routine.Matches Eq Eq p p := by
  induction p with
  | done o => exact .done (.self (fun _ => rfl) (Value.related_refl fun _ => rfl) o)
  | call f args next ih =>
    refine .call rfl (items_related_refl (fun _ => rfl) args) fun o o' ho => ?_
    obtain rfl := (Outcome.related_iff_like.2 ho).eq
    exact ih o
  | make behaviour next ih =>
    refine .make fun id id' hfg => ?_
    cases hfg
    exact ih (.host id behaviour)

theorem Routine.matches_andThen {f g : Function} {args args' : List Value} {next next' : Value → Routine}
    (hfg : F f g) (hargs : Paired (Value.Related F) args args')
    (hnext : ∀ v w, Value.Related F v w → Routine.Matches E F (next v) (next' w)) :
    Routine.Matches E F (.andThen f args next) (.andThen g args' next') := by
  refine .call hfg hargs fun o o' ho => ?_
  cases ho with
  | ok h => exact hnext _ _ h
  | error he => exact .done (.error he)

/-- The host functions of the library look at no function and at no error. -/
theorem HostFunction.routine_matches (hE : ∀ e, E e e) (behaviour : HostFunction) {args args' : List Value}
    (h : Paired (Value.Related F) args args') :
    Routine.Matches E F (behaviour.routine args) (behaviour.routine args') := by
  have hcall {f g : Function} (hfg : F f g) {as bs : List Value} (h : Paired (Value.Related F) as bs) :
      Routine.Matches E F (.call f as .done) (.call g bs .done) := .call hfg h fun _ _ ho => .done ho
  cases behaviour with
  | double =>
    simp only [HostFunction.routine]
    cases h with
    | nil => exact .done (.ok (.number _))
    | cons hv _ => cases hv <;> exact .done (.ok (.number _))
  | arguments => exact .done (.ok (.list h))
  | greet => exact .done (.ok (.string _))
  | fail => exact .done (.error (hE _))
  | failArity =>
    simp only [HostFunction.routine, h.length_eq]
    exact .done (.error (hE _))
  | apply =>
    cases h with
    | nil => exact .done (.ok .null)
    | cons hv h =>
      cases hv with
      | function hf => exact hcall hf h
      | _ => exact .done (.ok .null)
  | twice =>
    cases h with
    | nil => exact .done (.ok .null)
    | cons hv h =>
      cases hv with
      | function hf =>
        cases h with
        | nil => exact .done (.ok .null)
        | cons hx _ =>
          exact Routine.matches_andThen hf (.cons hx .nil) fun _ _ hy => hcall hf (.cons hy .nil)
      | _ => cases h <;> exact .done (.ok .null)

theorem Hosts.standard_discreet : Hosts.standard.Discreet :=
  fun _ _ _ behaviour _ _ h => Routine.related_iff_like.2 (behaviour.routine_matches (fun _ => rfl) h).like

end Routines

/--
How errors and functions of one run are like those of another, and which places are alike for two expressions: an
evaluation and a scope on either side. Functions from the number `first` on are made by the runs, and their numbers
are higher by `shift` in the second one. If any host function is like another, then so are those that host functions
make.
-/
structure Likeness (E : EvalError → EvalError → Prop) (ρ : Nat → Nat → Prop) (first shift : Nat) where
  function : Function → Function → Prop
  place : (k k' : Nat) → Scope → Scope → Expr → Expr → Prop
  mismatch : ∀ {e : EvalError}, e.kind = .typeMismatch → E e e
  depthExceeded : ∀ {e : EvalError}, e.kind = .depthExceeded → E e e
  faithful : Function.Faithful function
  host : ∀ {id behaviour g}, function (.host id behaviour) g → ∃ id', g = .host id' behaviour
  closure : ∀ {id k param body scope g}, function (.closure id k param body scope) g →
    ∃ id' k' param' body' scope', g = .closure id' k' param' body' scope' ∧ ∀ a b, Value.Related function a b →
      place k k' (Scope.bind scope param a) (Scope.bind scope' param' b) body body'
  newHost : ∀ {id behaviour g}, function (.host id behaviour) g →
    ∀ {id'}, first ≤ id' → ∀ behaviour', function (.host id' behaviour') (.host (id' + shift) behaviour')
  newClosure : ∀ {id}, first ≤ id → ∀ {k k' scope scope' param param' body body'},
    place k k' scope scope' (.lambda param body) (.lambda param' body') →
      function (.closure id k param body scope) (.closure (id + shift) k' param' body' scope')
  evaluation : ∀ {k k' scope scope' e e'}, place k k' scope scope' e e' → ρ k k'
  corresponds : ∀ {k k' scope scope' e e'}, place k k' scope scope' e e' →
    Expr.Corresponds E function scope scope' (place k k' scope scope') e e'

namespace Likeness

variable {E : EvalError → EvalError → Prop} {lax even : Prop} {ρ : Nat → Nat → Prop} {first shift : Nat}
  (A : Likeness E ρ first shift) {hosts : Hosts} {es es' : Evaluations}

/-- What host functions must do for two runs that differ as the likeness allows. -/
structure Admits (lax : Prop) (hosts : Hosts) : Prop where
  like : ∀ {id id' behaviour}, A.function (.host id behaviour) (.host id' behaviour) →
    ∀ args args', Paired (Value.Related A.function) args args' →
      Routine.Matches E A.function (hosts id behaviour args) (hosts id' behaviour args')
  returnErrors : lax → hosts.ReturnErrors

variable {A}

/-- Routines follow one another if the calls of functions do. -/
theorem run_follows {call₁ call₂ : Caller Run} {p p' : Routine} (hp : Routine.Matches E A.function p p')
    (hmade : ∀ {id}, first ≤ id → ∀ behaviour, A.function (.host id behaviour) (.host (id + shift) behaviour))
    (herrors : lax → p.ReturnsErrors)
    (hcall : Builtin.CallsAlike (Follows.lifting A.mismatch lax even first shift es es') A.function call₁ call₂) :
    Follows E lax even first shift es es' (Value.Related A.function) (p.run call₁) (p'.run call₂) := by
  induction hp with
  | done ho => exact (Follows.lifting A.mismatch lax even first shift es es').outcome ho
  | @call f g args args' next next' hfg hargs _ ih =>
    have hfollows := hcall hfg hargs
    constructor
    · intro n o r hn hr
      rw [Routine.run, Run.observe_bind, Option.bind_eq_some_iff] at hr
      obtain ⟨⟨o₁, r₁⟩, hx, hrest⟩ := hr
      obtain ⟨n₁, hn₁, rfl, ⟨hlax, e, rfl, hkind⟩ | ⟨o₁', hy, ho⟩⟩ := hfollows.ends hn hx
      · -- the error of a call that failed too deep is that of the routine
        change Routine.run call₁ (next (.error e)) _ = _ at hrest
        rw [(herrors hlax).1 e] at hrest
        cases hrest
        exact ⟨n₁, hn₁, rfl, .inl ⟨hlax, e, rfl, hkind⟩⟩
      · obtain ⟨n₂, hn₂, hr, hend⟩ :=
          (ih o₁ o₁' ho fun hlax => (herrors hlax).2 o₁).ends (Nat.le_trans hn hn₁) hrest
        rw [Routine.run, Run.observe_bind, hy]
        exact ⟨n₂, Nat.le_trans hn₁ hn₂, hr, hend⟩
    · intro n heven hn h
      rw [Routine.run, Run.observe_bind] at h ⊢
      obtain ⟨⟨o₁, r₁⟩, hx⟩ := Option.isSome_iff_exists.1 (hfollows.isSome heven hn (Option.isSome_of_isSome_bind h))
      obtain ⟨n₁, hn₁, rfl, ⟨hlax, e, rfl, -⟩ | ⟨o₁', hy, ho⟩⟩ := hfollows.ends hn hx
      · rw [hx]
        change (Routine.run call₁ (next (.error e)) _).isSome
        rw [(herrors hlax).1 e]
        rfl
      · rw [hy] at h
        rw [hx]
        exact (ih o₁ o₁' ho fun hlax => (herrors hlax).2 o₁).isSome heven (Nat.le_trans hn hn₁) h
  | @make behaviour next next' _ ih =>
    constructor
    · intro n o r hn hr
      have hnew := hmade hn behaviour
      obtain ⟨n', hn', hr, hend⟩ := (ih _ _ hnew fun hlax => herrors hlax _).ends (Nat.le_succ_of_le hn) hr
      rw [Nat.succ_add] at hend
      exact ⟨n', Nat.le_of_succ_le hn', hr, hend⟩
    · intro n heven hn h
      have hnew := hmade hn behaviour
      refine (ih _ _ hnew fun hlax => herrors hlax _).isSome heven (Nat.le_succ_of_le hn) ?_
      rw [Nat.succ_add]
      exact h

/-- Functions follow one another if the bodies of closures do. -/
theorem call_follows (hhosts : A.Admits lax hosts) {eval eval' : (k depth : Nat) → Scope → Expr → Run Value}
    (heval : ∀ {k k' scope scope' body body'}, A.place k k' scope scope' body body' →
      Follows E lax even first shift es es' (Value.Related A.function) (eval k (es.get k).depth scope body)
        (eval' k' (es'.get k').depth scope' body'))
    {fuel fuel' : Nat} (hfuel : fuel ≤ fuel') (heven : even → fuel' = fuel) :
    Builtin.CallsAlike (Follows.lifting A.mismatch lax even first shift es es') A.function
      (hosts.call (fromCounter eval) fuel) (hosts.call (fromCounter eval') fuel') := by
  have hclosure {id k : Nat} {param : String} {body : Expr} {scope : Scope} {g : Function} {args args' : List Value}
      (hfg : A.function (.closure id k param body scope) g) (hargs : Paired (Value.Related A.function) args args')
      (fuel fuel' : Nat) : Follows E lax even first shift es es' (Value.Related A.function)
        (hosts.call (fromCounter eval) fuel (.closure id k param body scope) args)
        (hosts.call (fromCounter eval') fuel' g args') := by
    obtain ⟨id', k', param', body', scope', rfl, hbody⟩ := A.closure hfg
    rw [Hosts.call, Hosts.call]
    exact Follows.read fun _ => heval (hbody _ _ (hargs.headD .null))
  induction fuel generalizing fuel' with
  | zero =>
    intro f g args args' hfg hargs
    cases f with
    | closure => exact hclosure hfg hargs _ _
    | host =>
      obtain ⟨id', rfl⟩ := A.host hfg
      rw [Hosts.call]
      exact .unfinished fun h => by rw [heven h, Hosts.call]
  | succ fuel ih =>
    intro f g args args' hfg hargs
    cases f with
    | closure => exact hclosure hfg hargs _ _
    | host id behaviour =>
      obtain ⟨fuel', rfl⟩ := Nat.exists_eq_add_one_of_ne_zero (Nat.ne_of_gt (Nat.lt_of_lt_of_le fuel.succ_pos hfuel))
      obtain ⟨id', rfl⟩ := A.host hfg
      rw [Hosts.call, Hosts.call]
      refine run_follows (hhosts.like hfg args args' hargs) (A.newHost hfg) ?_ ?_
      · exact fun hlax => hhosts.returnErrors hlax id behaviour args
      · exact ih (Nat.le_of_succ_le_succ hfuel) fun h => Nat.succ.inj (heven h)

theorem caller_follows (hhosts : A.Admits lax hosts) {eval eval' : (k depth : Nat) → Scope → Expr → Run Value}
    (heval : ∀ {k k' scope scope' body body'}, A.place k k' scope scope' body body' →
      Follows E lax even first shift es es' (Value.Related A.function) (eval k (es.get k).depth scope body)
        (eval' k' (es'.get k').depth scope' body'))
    {fuel fuel' : Nat} (hfuel : fuel ≤ fuel') (heven : even → fuel' = fuel) :
    Builtin.CallsAlike (Follows.lifting A.mismatch lax even first shift es es') A.function
      (hosts.caller (fromCounter eval) fuel) (hosts.caller (fromCounter eval') fuel') := by
  intro f g args args' hfg hargs
  refine call_follows hhosts heval ?_ (fun h => ?_) hfg hargs
  · rw [hargs.length_eq]
    omega
  · rw [heven h, hargs.length_eq]

/--
An expression in one run and, at a like place and no deeper, in a run whose evaluations have no less room: the second
follows the first.
-/
theorem evaluateNode_follows (hhosts : A.Admits lax hosts) {fuel fuel' k k' depth depth' : Nat}
    {scope scope' : Scope} {e e' : Expr} (hfuel : fuel ≤ fuel') (heven : even → fuel' = fuel)
    (hes : Roomier lax ρ es es') (hplace : A.place k k' scope scope' e e') (hcounter : (es.get k).depth ≤ depth)
    (hdepth : depth' ≤ depth) (hexact : ¬lax → depth = depth') :
    Follows E lax even first shift es es' (Value.Related A.function) (hosts.evaluateNode fuel k depth scope e)
      (hosts.evaluateNode fuel' k' depth' scope' e') := by
  induction fuel generalizing fuel' es es' k k' depth depth' scope scope' e e' with
  | zero => exact .unfinished fun h => by rw [heven h, Hosts.evaluateNode]
  | succ fuel ih =>
    obtain ⟨fuel', rfl⟩ := Nat.exists_eq_add_one_of_ne_zero (Nat.ne_of_gt (Nat.lt_of_lt_of_le fuel.succ_pos hfuel))
    have hless := Nat.le_of_succ_le_succ hfuel
    have heven (h : even) : fuel' = fuel := Nat.succ.inj (heven h)
    have hk := A.evaluation hplace
    rw [Hosts.evaluateNode, Hosts.evaluateNode]
    refine Follows.read fun _ => ?_
    by_cases hlimit : depth < (es.get k).limit
    · have hlimit' : depth' < (es'.get k').limit :=
        Nat.lt_of_le_of_lt hdepth (Nat.lt_of_lt_of_le hlimit (hes.limit_le hk))
      have hdeeper := hes.setDepth hk (es.lt_length_of_lt_limit hlimit) (es'.lt_length_of_lt_limit hlimit')
        (Nat.le_succ_of_le hcounter) (Nat.succ_le_succ hdepth) fun hlax => congrArg (· + 1) (hexact hlax)
      simp only [hlimit, hlimit', ↓reduceIte]
      refine (Follows.lifting A.mismatch lax even first shift es es').step A.faithful
        ((A.corresponds hplace).mono ?_) ?_ ?_
      · exact fun x x' hx => ih hless heven hes hx (Nat.le_succ_of_le hcounter) (Nat.succ_le_succ hdepth)
          fun hlax => congrArg (· + 1) (hexact hlax)
      · intro f g args args' hfg hargs
        have hcall : Builtin.CallsAlike (Follows.lifting A.mismatch lax even first shift (es.setDepth k (depth + 1))
            (es'.setDepth k' (depth' + 1))) A.function
            (hosts.caller (fromCounter (hosts.evaluateNode fuel)) fuel)
            (hosts.caller (fromCounter (hosts.evaluateNode fuel')) fuel') := by
          refine caller_follows hhosts (fun hplace => ?_) hless heven
          have hj := A.evaluation hplace
          exact ih hless heven hdeeper hplace (Nat.le_refl _) (hdeeper.depth_le hj)
            fun hlax => congrArg Evaluation.depth (hdeeper.exact hlax hj)
        refine Follows.atDepth ?_
        cases hfg with
        | @builtin b hcheck => exact Builtin.call_lift hcall b hcheck hargs
        | function hfg => exact hcall hfg hargs
      · intro param param' body body' he he'
        subst he he'
        exact .of_eq 1 (fun _ => rfl) (fun _ => rfl) fun n hn => .ok (.function (A.newClosure hn hplace))
    · by_cases hlax : lax
      · simp only [hlimit, ↓reduceIte]
        exact Follows.tooDeep hlax _
      · have hlimit' : ¬depth' < (es'.get k').limit := by rwa [← hexact hlax, ← hes.exact hlax hk]
        simp only [hlimit, hlimit', ↓reduceIte]
        rw [hes.exact hlax hk]
        exact (Follows.lifting A.mismatch lax even first shift es es').throw (A.depthExceeded rfl)

/-- Calls in two runs of which the second has no less room follow one another. -/
theorem calls_follow (hhosts : A.Admits lax hosts) {fuel fuel' : Nat} (hfuel : fuel ≤ fuel')
    (heven : even → fuel' = fuel) (hes : Roomier lax ρ es es') :
    Builtin.CallsAlike (Follows.lifting A.mismatch lax even first shift es es') A.function
      (hosts.caller (fromCounter (hosts.evaluateNode fuel)) fuel)
      (hosts.caller (fromCounter (hosts.evaluateNode fuel')) fuel') := by
  refine caller_follows hhosts (fun hplace => ?_) hfuel heven
  have hk := A.evaluation hplace
  exact evaluateNode_follows hhosts hfuel heven hes hplace (Nat.le_refl _) (hes.depth_le hk)
    fun hlax => congrArg Evaluation.depth (hes.exact hlax hk)

end Likeness

end RuleLang
