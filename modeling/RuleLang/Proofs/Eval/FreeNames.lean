import RuleLang.Proofs.Entries
import RuleLang.Proofs.Eval.Outcome

/-!
# Free names

What an expression evaluates to depends on its context only through its free names. A closure sees all that was in
scope where it was made, but its body looks up the free names of the body only; so closures that agree on these do
alike, wherever and however often they are called later.
-/

namespace RuleLang

section Names

mutual

/-- The names that an expression takes from its context: the roots of references, and the names of calls that are
not builtins, other than the parameters of the lambdas around them. -/
def Expr.freeNames : Expr → List String
  | .number _ | .string _ => []
  | .reference root segments => root :: Expr.segmentNames segments
  | .unary _ operand => operand.freeNames
  | .binary _ left right => left.freeNames ++ right.freeNames
  | .ternary condition yes no => condition.freeNames ++ (yes.freeNames ++ no.freeNames)
  | .call name args => (if (Builtin.ofName? name).isSome then [] else [name]) ++ Expr.argNames args
  | .lambda param body => body.freeNames.filter (· ≠ param)

def Expr.segmentNames : List Segment → List String
  | [] => []
  | .property _ :: segments => Expr.segmentNames segments
  | .index e :: segments => e.freeNames ++ Expr.segmentNames segments

def Expr.argNames : List Expr → List String
  | [] => []
  | e :: args => e.freeNames ++ Expr.argNames args

end

variable {name : String} {e x : Expr}

theorem Expr.mem_freeNames_of_looksUp (h : name ∈ e.looksUp) : name ∈ e.freeNames := by
  cases e with
  | reference root segments =>
    rw [Expr.freeNames, List.mem_singleton.1 h]
    exact List.mem_cons_self ..
  | call f args =>
    rw [Expr.freeNames]
    exact List.mem_append_left _ h
  | _ => cases h

theorem Expr.mem_segmentNames {segments : List Segment} (hx : .index x ∈ segments) (h : name ∈ x.freeNames) :
    name ∈ Expr.segmentNames segments := by
  induction segments with
  | nil => cases hx
  | cons segment segments ih =>
    cases segment with
    | property =>
      rw [Expr.segmentNames]
      exact ih ((List.mem_cons.1 hx).resolve_left nofun)
    | index y =>
      rw [Expr.segmentNames, List.mem_append]
      rcases List.mem_cons.1 hx with hxy | hx
      · cases hxy
        exact .inl h
      · exact .inr (ih hx)

theorem Expr.mem_argNames {args : List Expr} (hx : x ∈ args) (h : name ∈ x.freeNames) :
    name ∈ Expr.argNames args := by
  induction args with
  | nil => cases hx
  | cons y args ih =>
    rw [Expr.argNames, List.mem_append]
    rcases List.mem_cons.1 hx with rfl | hx
    · exact .inl h
    · exact .inr (ih hx)

/-- The free names of a part are free names of the whole: only lambdas bind, and their bodies are no parts. -/
theorem Expr.mem_freeNames_of_part (hx : x ∈ e.parts) (h : name ∈ x.freeNames) : name ∈ e.freeNames := by
  cases e with
  | reference root segments =>
    obtain ⟨segment, hsegment, hindex⟩ := List.mem_filterMap.1 hx
    cases segment with
    | property => cases hindex
    | index y =>
      cases hindex
      rw [Expr.freeNames]
      exact List.mem_cons_of_mem _ (Expr.mem_segmentNames hsegment h)
  | unary op operand =>
    rw [Expr.freeNames, ← List.mem_singleton.1 hx]
    exact h
  | binary op left right =>
    rw [Expr.freeNames, List.mem_append]
    simp only [Expr.parts, List.mem_cons, List.not_mem_nil, or_false] at hx
    rcases hx with rfl | rfl
    · exact .inl h
    · exact .inr h
  | ternary condition yes no =>
    rw [Expr.freeNames, List.mem_append, List.mem_append]
    simp only [Expr.parts, List.mem_cons, List.not_mem_nil, or_false] at hx
    rcases hx with rfl | rfl | rfl
    · exact .inl h
    · exact .inr (.inl h)
    · exact .inr (.inr h)
  | call f args =>
    rw [Expr.freeNames]
    exact List.mem_append_right _ (Expr.mem_argNames hx h)
  | _ => cases hx

theorem Expr.mem_freeNames_lambda {param : String} {body : Expr} (h : name ∈ body.freeNames) (hparam : name ≠ param) :
    name ∈ (Expr.lambda param body).freeNames := by
  rw [Expr.freeNames]
  exact List.mem_filter.2 ⟨h, decide_eq_true hparam⟩

/-- An expression corresponds to itself in scopes that agree on its free names, if its parts do in such scopes. -/
theorem Expr.Corresponds.of_freeNames {F : Function → Function → Prop} {scope scope' : Scope}
    {P : Expr → Expr → Prop}
    (h : ∀ name ∈ e.freeNames, Option.Rel (Value.Related F) (scope.lookup name) (scope'.lookup name))
    (hpart : ∀ x : Expr, (∀ name ∈ x.freeNames,
      Option.Rel (Value.Related F) (scope.lookup name) (scope'.lookup name)) → P x x) :
    Expr.Corresponds Eq F scope scope' P e e :=
  .of_looksUp (fun _ => rfl) (fun name hname => h name (Expr.mem_freeNames_of_looksUp hname))
    fun x hx => hpart x fun name hname => h name (Expr.mem_freeNames_of_part hx hname)

end Names

/--
The same function, or closures made from the number `first` on: with one parameter and one body, and with scopes
that bind each free name of the body to values that are alike.
-/
inductive Function.Alike (ρ : Nat → Nat → Prop) (first : Nat) : Function → Function → Prop
  | same {f : Function} : Function.Renumbered ρ f f → Alike ρ first f f
  | closure {id k k' : Nat} {param : String} {body : Expr} {scope scope' : List (String × Value)} :
      first ≤ id → ρ k k' →
      (∀ name ∈ body.freeNames, name ≠ param →
        Option.Rel (Value.Related (Alike ρ first)) (Entries.get? name scope) (Entries.get? name scope')) →
      Alike ρ first (.closure id k param body scope) (.closure id k' param body scope')

/-- Values of the same shape whose functions are alike. -/
abbrev Value.Alike (ρ : Nat → Nat → Prop) (first : Nat) : Value → Value → Prop :=
  Value.Related (Function.Alike ρ first)

/-- Scopes that bind the given names alike. -/
def Scope.Alike (ρ : Nat → Nat → Prop) (first : Nat) (names : List String) (scope scope' : Scope) : Prop :=
  ∀ name ∈ names, Option.Rel (Value.Alike ρ first) (scope.lookup name) (scope'.lookup name)

section Alike

variable {ρ : Nat → Nat → Prop} {first : Nat}

theorem Function.Alike.id_eq {f g : Function} (h : Function.Alike ρ first f g) : f.id = g.id := by
  cases h <;> rfl

/-- Values whose closures belong to evaluations that keep their numbers are like themselves. -/
theorem Value.Alike.self {v : Value} (h : Value.Renumbered ρ v v) : Value.Alike ρ first v v :=
  h.diagonal fun _ => .same

theorem Scope.Alike.self {scope : Scope} (h : Scope.Renumbered ρ scope scope) (names : List String) :
    Scope.Alike ρ first names scope scope := by
  intro name _
  have hfound := h.lookup name
  cases hget : scope.lookup name with
  | none => exact .none
  | some v =>
    rw [hget] at hfound
    cases hfound with
    | some hv => exact .some (.self hv)

/-- Scopes that bind the given names to the same values are alike. -/
theorem Scope.Alike.of_agree {names : List String} {scope scope' : Scope} (h : Scope.Renumbered ρ scope scope)
    (hagree : ∀ name ∈ names, scope.lookup name = scope'.lookup name) :
    Scope.Alike ρ first names scope scope' := by
  intro name hname
  rw [← hagree name hname]
  exact Scope.Alike.self h names name hname

/-- Inside a lambda scopes bind names to related values if they do outside, but for the name of the parameter. -/
theorem Scope.lookup_bind_rel {R : Value → Value → Prop} {names : List String} {scope scope' : Scope}
    {param : String}
    (h : ∀ name ∈ names, name ≠ param → Option.Rel R (scope.lookup name) (scope'.lookup name)) {v w : Value}
    (hvw : R v w) :
    ∀ name ∈ names, Option.Rel R ((scope.bind param v).lookup name) ((scope'.bind param w).lookup name) := by
  intro name hname
  simp only [Scope.lookup, Scope.bind, Entries.get?]
  by_cases hparam : param = name
  · simp only [hparam, ↓reduceIte]
    exact .some hvw
  · simp only [hparam, ↓reduceIte]
    exact h name hname (Ne.symm hparam)

/-- Places are alike for an expression if the scopes are for its free names. -/
def Likeness.alike (ρ : Nat → Nat → Prop) (first : Nat) : Likeness Eq ρ first 0 where
  function := Function.Alike ρ first
  place k k' scope scope' e e' := e = e' ∧ ρ k k' ∧ Scope.Alike ρ first e.freeNames scope scope'
  mismatch _ := rfl
  depthExceeded _ := rfl
  faithful := .of_id_eq fun _ _ => Function.Alike.id_eq
  host h := by
    cases h
    exact ⟨_, rfl⟩
  closure h := by
    cases h with
    | same hf =>
      cases hf with
      | closure _ _ _ hk hscope =>
        exact ⟨_, _, _, _, _, rfl, fun _ _ hab => ⟨rfl, hk, Scope.lookup_bind_rel
          (fun name hname _ => Scope.Alike.self hscope _ name hname) hab⟩⟩
    | closure _ hk hscope =>
      exact ⟨_, _, _, _, _, rfl, fun _ _ hab => ⟨rfl, hk, Scope.lookup_bind_rel hscope hab⟩⟩
  newHost _ _ _ behaviour := .same (.host _ behaviour)
  newClosure := by
    intro id hid k k' scope scope' param param' body body' h
    obtain ⟨he, hk, hscope⟩ := h
    cases he
    exact .closure hid hk fun name hfree hparam => hscope name (Expr.mem_freeNames_lambda hfree hparam)
  evaluation h := h.2.1
  corresponds := by
    intro k k' scope scope' e e' h
    obtain ⟨rfl, hk, hscope⟩ := h
    exact .of_freeNames hscope fun x hx => ⟨rfl, hk, hx⟩

theorem Hosts.Discreet.admits {hosts : Hosts} (h : hosts.Discreet) {lax : Prop} (herrors : lax → hosts.ReturnErrors) :
    (Likeness.alike ρ first).Admits lax hosts where
  like hfg args args' hargs := by
    have hid (f g : Function) : Function.Alike ρ first f g → f.id = g.id := Function.Alike.id_eq
    obtain rfl := hid _ _ hfg
    exact (Routine.related_iff_like.1 (h _ hid _ _ args args' hargs)).matches hid
  returnErrors := herrors

/-- Functions that are alike do alike when they are called later, in runs of which the second has no less room. -/
theorem Registry.callOutcome_alike {lax : Prop} {es es' : Evaluations} (hes : Roomier lax ρ es es') {n : Nat}
    (hn : first ≤ n) {f g : Function} (hfg : Function.Alike ρ first f g) {args args' : List Value}
    (hargs : Paired (Value.Alike ρ first) args args') :
    (lax ∧ TooDeep (Registry.callOutcome ⟨es, n⟩ f args)) ∨ Outcome.Related (Value.Alike ρ first)
      (Registry.callOutcome ⟨es, n⟩ f args) (Registry.callOutcome ⟨es', n⟩ g args') :=
  have hadmits : (Likeness.alike ρ first).Admits lax Hosts.standard :=
    Hosts.standard_discreet.admits fun _ => Hosts.standard_returnErrors
  (Hosts.calls_endsAlike hadmits hes hn hfg hargs).endsLike.outcome Hosts.standard_calls_iff Hosts.standard_calls_iff

end Alike

section Agreement

variable {limit : Nat} {c c' : Context} {e : Expr} {r : Registry}

/-- Contexts that agree on the free names of an expression give it like outcomes. -/
theorem Hosts.gives_of_agree {hosts : Hosts} (hhosts : hosts.Discreet)
    (h : ∀ name ∈ e.freeNames, c.get? name = c'.get? name) :
    EndsLike False (Value.Alike Eq r.functions) (hosts.Gives limit c e r) (hosts.Gives limit c' e r) := by
  have hscope : Scope.Alike Eq r.functions e.freeNames c.scope c'.scope :=
    .of_agree (entries_renumbered_refl (fun _ => rfl) c.scope) h
  exact (gives_endsAlike (A := .alike Eq r.functions) (hhosts.admits nofun) (.refl _) ⟨rfl, rfl, hscope⟩).endsLike

/--
Contexts that agree on the free names of an expression give it the same outcome, up to what else the closures that
it makes have in scope. So a binding of any other name does not matter, be it the name of a builtin that is called,
nor does the order of bindings. Of all host functions this holds that look at functions only by calling and
comparing them.
-/
theorem Registry.outcome_of_agree (r : Registry) (limit : Nat) (e : Expr) :
    (∀ c c' : Context, (∀ name ∈ e.freeNames, c.get? name = c'.get? name) →
      Outcome.Related (Value.Alike Eq r.functions) (r.outcome limit c e) (r.outcome limit c' e) ∧
      ∀ hosts : Hosts, hosts.Discreet →
        EndsLike False (Value.Alike Eq r.functions) (hosts.Gives limit c e r) (hosts.Gives limit c' e r)) ∧
    (∀ (c : Context) (name : String) (v : Value), name ∉ e.freeNames →
      Outcome.Related (Value.Alike Eq r.functions) (r.outcome limit (c.bind name v) e) (r.outcome limit c e)) ∧
    ∀ c c' : Context, c.entries.Distinct → c.entries.Perm c'.entries →
      Outcome.Related (Value.Alike Eq r.functions) (r.outcome limit c e) (r.outcome limit c' e) := by
  have hagree (c c' : Context) (h : ∀ name ∈ e.freeNames, c.get? name = c'.get? name) :
      Outcome.Related (Value.Alike Eq r.functions) (r.outcome limit c e) (r.outcome limit c' e) :=
    ((Hosts.gives_of_agree Hosts.standard_discreet h).outcome Hosts.standard_gives_iff
      Hosts.standard_gives_iff).resolve_left fun hlax => hlax.1
  refine ⟨fun c c' h => ⟨hagree c c' h, fun hosts hhosts => Hosts.gives_of_agree hhosts h⟩, ?_, ?_⟩
  · intro c name v hname
    refine hagree _ _ fun other hother => ?_
    have hne : name ≠ other := fun heq => hname (heq ▸ hother)
    rw [Context.get?, Context.bind, Entries.get?_insert, if_neg hne, Context.get?]
  · exact fun c c' hdistinct hperm => hagree _ _ fun name _ => Entries.get?_perm hperm hdistinct name

/-- A lambda that gives the length of a name of its context: the other name and the order do not matter, and not
even a binding of the name of the builtin does. -/
theorem Registry.outcome_of_agree_len :
    let r := Registry.empty
    let e : Expr := .lambda "y" (.call "len" [.reference "x" [], .reference "y" []])
    let c : Context := ⟨[("x", .string "a"), ("z", .null)]⟩
    let c' : Context := ⟨[("z", .null), ("x", .string "a")]⟩
    e.freeNames = ["x"] ∧
    Outcome.Related (Value.Alike Eq 0) (r.outcome 256 c e) (r.outcome 256 ⟨[("x", .string "a")]⟩ e) ∧
    EndsLike False (Value.Alike Eq 0) (Hosts.standard.Gives 256 c e r) (Hosts.standard.Gives 256 c' e r) ∧
    Outcome.Related (Value.Alike Eq 0) (r.outcome 256 (c.bind "len" .null) e) (r.outcome 256 c e) ∧
    Outcome.Related (Value.Alike Eq 0) (r.outcome 256 c e) (r.outcome 256 c' e) := by
  intro r e c c'
  have hfree : e.freeNames = ["x"] := by decide
  obtain ⟨hagree, hbind, hperm⟩ := Registry.outcome_of_agree r 256 e
  refine ⟨hfree, (hagree c _ ?_).1, ?_, hbind c "len" .null ?_, hperm c c' ?_ ?_⟩
  · simp [hfree, c, Context.get?, Entries.get?]
  · refine (hagree c c' ?_).2 _ Hosts.standard_discreet
    simp [hfree, c, c', Context.get?, Entries.get?]
  · simp [hfree]
  · simp [c, Entries.Distinct, Entries.names]
  · exact .swap ..

end Agreement

end RuleLang
