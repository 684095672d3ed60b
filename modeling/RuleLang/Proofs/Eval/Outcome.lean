import RuleLang.Proofs.Eval.Following
import RuleLang.Proofs.Session.Building

/-!
# The outcome of a new evaluation

An expression evaluated in an evaluation of its own, and a function called while no evaluation is under way, by the
library and under any host functions. Host functions may never come to an end; with them there is at most one
outcome, and under those of the library there is exactly the one that the library computes.
-/

namespace RuleLang

namespace Registry

/-- Evaluates an expression in a context, in a new evaluation with the given limit. -/
def evaluateNew (limit : Nat) (c : Context) (e : Expr) : StateM Registry (Except EvalError Value) := do
  Registry.evaluate (← Registry.start limit) c.scope e

/-- The registry after the start of an evaluation. -/
def started (r : Registry) (limit : Nat) : Registry :=
  ⟨r.evaluations ++ [⟨limit, 0⟩], r.functions⟩

/-- A new evaluation has its limit, and its counter is at zero. -/
@[simp]
theorem get_started (r : Registry) (limit : Nat) :
    (r.started limit).evaluations.get r.evaluations.length = ⟨limit, 0⟩ :=
  Evaluations.get_concat_length ..

/-- The outcome of a new evaluation. -/
def outcome (r : Registry) (limit : Nat) (c : Context) (e : Expr) : Except EvalError Value :=
  ((evaluateNew limit c e).run r).1

/-- The outcome of a call while no evaluation is under way. -/
def callOutcome (r : Registry) (f : Function) (args : List Value) : Except EvalError Value :=
  ((Registry.call f args).run r).1

end Registry

/-- An engine evaluates every expression in a new evaluation with the limit of its options. -/
theorem Options.evaluate_eq_evaluateNew (o : Options) (e : Expr) (c : Context) :
    o.evaluate e c = Registry.evaluateNew o.maxDepth.toNat c e :=
  rfl

/-- An action ends with the outcome `o` if it has enough fuel. -/
def Run.Ends (x : (fuel : Nat) → Run Value) (r : Registry) (o : Except EvalError Value) : Prop :=
  ∃ fuel r', x fuel r = some (o, r')

/--
Two actions, given by what they end with. Where one ends, so does the other, and the outcomes are related; only
where that is let pass, the first may fail too deep instead.
-/
structure EndsLike (lax : Prop) (R : Value → Value → Prop) (P Q : Except EvalError Value → Prop) : Prop where
  follow : ∀ {o}, P o → (lax ∧ TooDeep o) ∨ ∃ o', Q o' ∧ Outcome.Related R o o'
  precede : ∀ {o'}, Q o' → ∃ o, P o ∧ ((lax ∧ TooDeep o) ∨ Outcome.Related R o o')

/--
Two actions, given by what they end with. Where one ends, so does the other, and the outcomes are alike by `S`; only
where that is let pass, the first may fail too deep instead.
-/
structure EndsAlike (lax : Prop) (S : Except EvalError Value → Except EvalError Value → Prop)
    (P Q : Except EvalError Value → Prop) : Prop where
  follow : ∀ {o}, P o → (lax ∧ TooDeep o) ∨ ∃ o', Q o' ∧ S o o'
  precede : ∀ {o'}, Q o' → ∃ o, P o ∧ ((lax ∧ TooDeep o) ∨ S o o')

section Ends

variable {x y : Nat → Run Value} {r : Registry} {o o' : Except EvalError Value}

/-- Where only the same errors are alike, outcomes that are alike are related. -/
theorem EndsAlike.endsLike {lax : Prop} {R : Value → Value → Prop} {P Q : Except EvalError Value → Prop}
    (h : EndsAlike lax (Outcome.Like Eq R) P Q) : EndsLike lax R P Q where
  follow hP := by
    refine (h.follow hP).imp_right fun hQ => ?_
    obtain ⟨o', hQ, ho⟩ := hQ
    exact ⟨o', hQ, Outcome.related_iff_like.2 ho⟩
  precede hQ := by
    obtain ⟨o, hP, ho⟩ := h.precede hQ
    exact ⟨o, hP, ho.imp_right Outcome.related_iff_like.2⟩

theorem EndsLike.mono {lax : Prop} {R S : Value → Value → Prop} {P Q : Except EvalError Value → Prop}
    (hRS : ∀ v w, R v w → S v w) (h : EndsLike lax R P Q) : EndsLike lax S P Q where
  follow hP := by
    refine (h.follow hP).imp_right fun hQ => ?_
    obtain ⟨o', hQ, ho⟩ := hQ
    exact ⟨o', hQ, ho.mono hRS⟩
  precede hQ := by
    obtain ⟨o, hP, ho⟩ := h.precede hQ
    exact ⟨o, hP, ho.imp_right fun ho => ho.mono hRS⟩

/-- If more fuel changes nothing, then an action ends in one way. -/
theorem Run.Ends.unique (hmono : ∀ fuel fuel' p, fuel ≤ fuel' → x fuel r = some p → x fuel' r = some p)
    (h : Run.Ends x r o) (h' : Run.Ends x r o') : o = o' := by
  obtain ⟨fuel, r₁, h⟩ := h
  obtain ⟨fuel', r₂, h'⟩ := h'
  have h := hmono _ _ _ (Nat.le_max_left fuel fuel') h
  rw [hmono _ _ _ (Nat.le_max_right fuel fuel') h'] at h
  cases h
  rfl

theorem Follows.endsAlike_shift {E : EvalError → EvalError → Prop} {lax : Prop} {first shift n : Nat}
    {es es' : Evaluations} {R : Value → Value → Prop}
    (h : ∀ fuel, Follows E lax True first shift es es' R (x fuel) (y fuel)) (hn : first ≤ n)
    (hunique : ∀ o o', Run.Ends y ⟨es', n + shift⟩ o → Run.Ends y ⟨es', n + shift⟩ o' → o = o') :
    EndsAlike lax (Outcome.Like E R) (Run.Ends x ⟨es, n⟩) (Run.Ends y ⟨es', n + shift⟩) := by
  have hfollow {o : Except EvalError Value} (hx : Run.Ends x ⟨es, n⟩ o) :
      (lax ∧ TooDeep o) ∨ ∃ o', Run.Ends y ⟨es', n + shift⟩ o' ∧ Outcome.Like E R o o' := by
    obtain ⟨fuel, r, hx⟩ := hx
    obtain ⟨n', -, -, hdeep | ⟨o', hy, ho⟩⟩ := (h fuel).ends hn hx
    · exact .inl hdeep
    · exact .inr ⟨o', ⟨fuel, _, hy⟩, ho⟩
  refine ⟨hfollow, ?_⟩
  rintro o' ⟨fuel, r, hy⟩
  have hends : (x fuel ⟨es, n⟩).isSome := (h fuel).isSome trivial hn (by simp only [hy, Option.isSome_some])
  obtain ⟨⟨o, r'⟩, hx⟩ := Option.isSome_iff_exists.1 hends
  refine ⟨o, ⟨fuel, r', hx⟩, (hfollow ⟨fuel, r', hx⟩).imp_right ?_⟩
  rintro ⟨o'', hy', ho⟩
  rwa [hunique _ _ ⟨fuel, r, hy⟩ hy']

theorem Follows.endsAlike {E : EvalError → EvalError → Prop} {lax : Prop} {first n : Nat} {es es' : Evaluations}
    {R : Value → Value → Prop} (h : ∀ fuel, Follows E lax True first 0 es es' R (x fuel) (y fuel)) (hn : first ≤ n)
    (hunique : ∀ o o', Run.Ends y ⟨es', n⟩ o → Run.Ends y ⟨es', n⟩ o' → o = o') :
    EndsAlike lax (Outcome.Like E R) (Run.Ends x ⟨es, n⟩) (Run.Ends y ⟨es', n⟩) :=
  Follows.endsAlike_shift h hn hunique

/-- Where both actions end in one way, their outcomes are alike. -/
theorem EndsAlike.outcome {lax : Prop} {S : Except EvalError Value → Except EvalError Value → Prop}
    {P Q : Except EvalError Value → Prop} (h : EndsAlike lax S P Q) (hP : ∀ {a}, P a ↔ o = a)
    (hQ : ∀ {b}, Q b ↔ o' = b) : (lax ∧ TooDeep o) ∨ S o o' := by
  refine (h.follow (hP.2 rfl)).imp_right fun hends => ?_
  obtain ⟨b, hb, ho⟩ := hends
  rwa [hQ.1 hb]

theorem EndsLike.outcome {lax : Prop} {R : Value → Value → Prop} {P Q : Except EvalError Value → Prop}
    (h : EndsLike lax R P Q) (hP : ∀ {a}, P a ↔ o = a) (hQ : ∀ {b}, Q b ↔ o' = b) :
    (lax ∧ TooDeep o) ∨ Outcome.Related R o o' :=
  EndsAlike.outcome ⟨h.follow, h.precede⟩ hP hQ

end Ends

namespace Hosts

variable (hosts : Hosts)

/-- The outcome of an expression in a new evaluation with the given limit. -/
def Gives (limit : Nat) (c : Context) (e : Expr) (r : Registry) : Except EvalError Value → Prop :=
  Run.Ends (fun fuel => hosts.evaluateNode fuel r.evaluations.length 0 c.scope e) (r.started limit)

/-- The outcome of an expression in a new evaluation, and the registry after it. -/
def GivesIn (limit : Nat) (c : Context) (e : Expr) (r : Registry) (o : Except EvalError Value) (r' : Registry) : Prop :=
  ∃ fuel, hosts.evaluateNode fuel r.evaluations.length 0 c.scope e (r.started limit) = some (o, r')

/-- The outcome of a function that is called while no evaluation is under way. -/
def Calls (f : Function) (args : List Value) (r : Registry) : Except EvalError Value → Prop :=
  Run.Ends (fun fuel => hosts.caller (fromCounter (hosts.evaluateNode fuel)) fuel f args) r

end Hosts

/-- Functions are like themselves only, and so are places. -/
def Likeness.identity (first : Nat) : Likeness Eq Eq first 0 where
  function := Eq
  place k k' scope scope' e e' := k = k' ∧ scope = scope' ∧ e = e'
  mismatch _ := rfl
  depthExceeded _ := rfl
  faithful := .of_id_eq fun _ _ h => congrArg Function.id h
  host h := ⟨_, h.symm⟩
  closure h := ⟨_, _, _, _, _, h.symm, fun _ _ hab => ⟨rfl, by rw [hab.eq], rfl⟩⟩
  newHost _ _ _ _ := rfl
  newClosure _ := by
    intro _ _ _ _ _ _ _ _ h
    obtain ⟨rfl, rfl, he⟩ := h
    cases he
    rfl
  evaluation h := h.1
  corresponds := by
    intro k _ scope _ e _ h
    obtain ⟨rfl, rfl, rfl⟩ := h
    refine .of_looksUp (fun _ => rfl) (fun name _ => ?_) fun x _ => ⟨rfl, rfl, rfl⟩
    exact Entries.get?_related (entries_related_refl (fun _ => rfl) scope) name

namespace Hosts

variable {hosts : Hosts} {k : Nat} {scope : Scope} {e : Expr} {f : Function} {args : List Value} {r : Registry}
  {o o' : Except EvalError Value}

theorem identity_admits {lax : Prop} (first : Nat) (h : lax → hosts.ReturnErrors) :
    (Likeness.identity first).Admits lax hosts where
  like hfg args args' hargs := by
    cases hfg
    obtain rfl := items_related_eq hargs
    exact Routine.matches_self _
  returnErrors := h

/-- What follows an action under the same functions and evaluations ends as the action does. -/
theorem eq_some_of_follows {x y : Run Value} {p : Except EvalError Value × Registry}
    (hfollows : Follows Eq False False r.functions 0 r.evaluations r.evaluations (Value.Related Eq) x y)
    (h : x r = some p) : y r = some p := by
  obtain ⟨n, -, hr, ⟨hlax, -⟩ | ⟨o', h', ho⟩⟩ := hfollows.ends (Nat.le_refl r.functions) h
  · exact hlax.elim
  · change y r = some (o', ⟨r.evaluations, n⟩) at h'
    rwa [← (Outcome.related_iff_like.2 ho).eq, ← hr] at h'

/-- More fuel does not change how a run ends. -/
theorem evaluateNode_mono {fuel fuel' depth : Nat} (hfuel : fuel ≤ fuel') {p : Except EvalError Value × Registry}
    (hcounter : (r.evaluations.get k).depth ≤ depth) (h : hosts.evaluateNode fuel k depth scope e r = some p) :
    hosts.evaluateNode fuel' k depth scope e r = some p :=
  eq_some_of_follows (Likeness.evaluateNode_follows (identity_admits r.functions nofun) hfuel False.elim
    (.refl r.evaluations) ⟨rfl, rfl, rfl⟩ hcounter (Nat.le_refl depth) fun _ => rfl) h

/-- A run that ends has put the counters back, and has only made functions. -/
theorem evaluateNode_ends {es : Evaluations} {fuel depth n : Nat} {r' : Registry}
    (hcounter : (es.get k).depth ≤ depth) (h : hosts.evaluateNode fuel k depth scope e ⟨es, n⟩ = some (o, r')) :
    ∃ n', n ≤ n' ∧ r' = ⟨es, n'⟩ := by
  have hself : Follows Eq False False n 0 es es (Value.Related Eq) (hosts.evaluateNode fuel k depth scope e)
      (hosts.evaluateNode fuel k depth scope e) :=
    Likeness.evaluateNode_follows (identity_admits n nofun) (Nat.le_refl fuel) False.elim (.refl es) ⟨rfl, rfl, rfl⟩
      hcounter (Nat.le_refl depth) fun _ => rfl
  obtain ⟨n', hn, hr, -⟩ := hself.ends (Nat.le_refl n) h
  exact ⟨n', hn, hr⟩

theorem caller_mono {fuel fuel' : Nat} (hfuel : fuel ≤ fuel') {p : Except EvalError Value × Registry}
    (h : hosts.caller (fromCounter (hosts.evaluateNode fuel)) fuel f args r = some p) :
    hosts.caller (fromCounter (hosts.evaluateNode fuel')) fuel' f args r = some p := by
  refine eq_some_of_follows ?_ h
  exact Likeness.calls_follow (A := .identity r.functions) (identity_admits r.functions nofun) hfuel False.elim
    (.refl r.evaluations) rfl (items_related_refl (fun _ => rfl) args)

/-- A new evaluation starts with its counter at zero. -/
theorem depth_started_le (r : Registry) (limit : Nat) :
    ((r.started limit).evaluations.get r.evaluations.length).depth ≤ 0 := by
  simp

/-- An expression has at most one outcome. -/
theorem Gives.unique {limit : Nat} {c : Context} (h : hosts.Gives limit c e r o) (h' : hosts.Gives limit c e r o') :
    o = o' :=
  Run.Ends.unique (fun _ _ _ hfuel => evaluateNode_mono hfuel (depth_started_le r limit)) h h'

theorem Calls.unique (h : hosts.Calls f args r o) (h' : hosts.Calls f args r o') : o = o' :=
  Run.Ends.unique (fun _ _ _ hfuel => caller_mono hfuel) h h'

section Alike

variable {E : EvalError → EvalError → Prop} {lax : Prop} {ρ : Nat → Nat → Prop}

/-- New evaluations of expressions at like places, the second one when more functions may have been made: the one with
no less room ends like the other. -/
theorem gives_endsAlike_shift {r' : Registry} {shift : Nat} (hfunctions : r'.functions = r.functions + shift)
    {A : Likeness E ρ r.functions shift} (hhosts : A.Admits lax hosts) {limit limit' : Nat}
    (hes : Roomier lax ρ (r.started limit).evaluations (r'.started limit').evaluations) {c c' : Context} {e' : Expr}
    (hplace : A.place r.evaluations.length r'.evaluations.length c.scope c'.scope e e') :
    EndsAlike lax (Outcome.Like E (Value.Related A.function)) (hosts.Gives limit c e r)
      (hosts.Gives limit' c' e' r') := by
  have hstarted : r'.started limit' = ⟨(r'.started limit').evaluations, r.functions + shift⟩ := by
    rw [← hfunctions, Registry.started]
  rw [Gives, Gives, hstarted]
  refine Follows.endsAlike_shift (fun fuel => ?_) (Nat.le_refl r.functions) ?_
  · exact Likeness.evaluateNode_follows hhosts (Nat.le_refl fuel) (fun _ => rfl) hes hplace
      (depth_started_le r limit) (Nat.le_refl 0) fun _ => rfl
  · rw [← hstarted]
    exact fun _ _ => Gives.unique

/-- New evaluations of expressions at like places: the one with no less room ends like the other. -/
theorem gives_endsAlike {A : Likeness E ρ r.functions 0} (hhosts : A.Admits lax hosts) {limit limit' : Nat}
    (hes : Roomier lax ρ (r.started limit).evaluations (r.started limit').evaluations) {c c' : Context} {e' : Expr}
    (hplace : A.place r.evaluations.length r.evaluations.length c.scope c'.scope e e') :
    EndsAlike lax (Outcome.Like E (Value.Related A.function)) (hosts.Gives limit c e r)
      (hosts.Gives limit' c' e' r) :=
  gives_endsAlike_shift rfl hhosts hes hplace

/-- So do calls of like functions. -/
theorem calls_endsAlike {first n : Nat} {A : Likeness E ρ first 0} (hhosts : A.Admits lax hosts)
    {es es' : Evaluations} (hes : Roomier lax ρ es es') (hn : first ≤ n) {g : Function} {args' : List Value}
    (hfg : A.function f g) (hargs : Paired (Value.Related A.function) args args') :
    EndsAlike lax (Outcome.Like E (Value.Related A.function)) (hosts.Calls f args ⟨es, n⟩)
      (hosts.Calls g args' ⟨es', n⟩) := by
  refine Follows.endsAlike (fun fuel => ?_) hn fun _ _ => Calls.unique
  exact Likeness.calls_follow hhosts (Nat.le_refl fuel) (fun _ => rfl) hes hfg hargs

end Alike

theorem gives_iff {limit : Nat} {c : Context} :
    hosts.Gives limit c e r o ↔ ∃ r', hosts.GivesIn limit c e r o r' :=
  exists_comm

/-- Under the host functions of the library, an evaluation ends as the library ends it. -/
theorem standard_givesIn (limit : Nat) (c : Context) (e : Expr) (r : Registry) :
    Hosts.standard.GivesIn limit c e r (r.outcome limit c e) ((Registry.evaluateNew limit c e).run r).2 := by
  refine ⟨(r.started limit).fuel, ?_⟩
  rw [Hosts.evaluateNode_standard]
  exact Registry.eq_some_run (Run.evaluate_ends r.evaluations.length c.scope e) (r.started limit)

/-- An expression has the outcome that the library computes. -/
theorem standard_gives_iff {limit : Nat} {c : Context} :
    Hosts.standard.Gives limit c e r o ↔ r.outcome limit c e = o := by
  have hgives : Hosts.standard.Gives limit c e r (r.outcome limit c e) :=
    gives_iff.2 ⟨_, standard_givesIn limit c e r⟩
  constructor
  · exact hgives.unique
  · rintro rfl
    exact hgives

/-- So does a function that is called. -/
theorem standard_calls_iff : Hosts.standard.Calls f args r o ↔ r.callOutcome f args = o := by
  have hcalls : Hosts.standard.Calls f args r (r.callOutcome f args) := by
    refine ⟨r.fuel, ((Registry.call f args).run r).2, ?_⟩
    simp only [Hosts.evaluateNode_standard, Hosts.caller_standard]
    exact Registry.eq_some_run (Run.call_ends f args) r
  constructor
  · exact hcalls.unique
  · rintro rfl
    exact hcalls

end Hosts

end RuleLang
