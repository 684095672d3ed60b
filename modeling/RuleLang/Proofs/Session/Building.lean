import RuleLang.Proofs.Session.Owned
import RuleLang.Session.Recipe

/-!
# What actions on the registry leave behind

Between two steps no evaluation is under way. Whatever a step does then, the evaluations started before keep their
limits and counters, new ones are added with counters at zero, and values that come out hold closures of the
evaluations started until then.
-/

namespace RuleLang

namespace Registry

/-- A later registry: it has the same evaluations, and then new ones with counters at zero. -/
def Extends (r r' : Registry) : Prop :=
  ∃ fresh : Evaluations, r'.evaluations = r.evaluations ++ fresh ∧ ∀ e ∈ fresh, e.depth = 0

theorem Extends.of_eq {r r' : Registry} (h : r'.evaluations = r.evaluations) : r.Extends r' :=
  ⟨[], by rw [h, List.append_nil], nofun⟩

theorem Extends.trans {r r' r'' : Registry} (h : r.Extends r') (h' : r'.Extends r'') : r.Extends r'' := by
  obtain ⟨fresh, hr', hfresh⟩ := h
  obtain ⟨fresh', hr'', hfresh'⟩ := h'
  refine ⟨fresh ++ fresh', by rw [hr'', hr', List.append_assoc], fun e he => ?_⟩
  rcases List.mem_append.1 he with he | he
  · exact hfresh e he
  · exact hfresh' e he

theorem Extends.length_le {r r' : Registry} (h : r.Extends r') : r.evaluations.length ≤ r'.evaluations.length := by
  obtain ⟨fresh, hr', -⟩ := h
  rw [hr', List.length_append]
  exact Nat.le_add_right ..

theorem Extends.idle {r r' : Registry} (h : r.Extends r') (hidle : ∀ e ∈ r.evaluations, e.depth = 0) :
    ∀ e ∈ r'.evaluations, e.depth = 0 := by
  obtain ⟨fresh, hr', hfresh⟩ := h
  intro e he
  rw [hr'] at he
  rcases List.mem_append.1 he with he | he
  · exact hidle e he
  · exact hfresh e he

/-- The evaluations stay, and the result has a property that may depend on how many there are by then. -/
structure Yields {α : Type} (P : Nat → α → Prop) (x : StateM Registry α) (r : Registry) : Prop where
  grows : r.Extends (x r).2
  result : P (x r).2.evaluations.length (x r).1

section Yields

variable {α β : Type} {P : Nat → α → Prop} {Q : Nat → β → Prop} {r : Registry}

theorem Yields.pure {a : α} (h : P r.evaluations.length a) : Yields P (Pure.pure a) r :=
  ⟨.of_eq rfl, h⟩

theorem Yields.bind {x : StateM Registry α} {f : α → StateM Registry β} (hx : Yields P x r)
    (hf : ∀ a r', r.Extends r' → P r'.evaluations.length a → Yields Q (f a) r') : Yields Q (x >>= f) r :=
  have h := hf (x r).1 (x r).2 hx.grows hx.result
  ⟨hx.grows.trans h.grows, h.result⟩

end Yields

/-- An evaluation that is started gets the next number. -/
theorem start_yields (limit : Nat) (r : Registry) :
    Yields (fun n k => k = r.evaluations.length ∧ k < n) (Registry.start limit) r := by
  constructor
  · refine ⟨[⟨limit, 0⟩], rfl, fun e he => ?_⟩
    rw [List.mem_singleton.1 he]
  · refine ⟨rfl, ?_⟩
    show r.evaluations.length < (r.evaluations ++ [(⟨limit, 0⟩ : Evaluation)]).length
    rw [List.length_append]
    exact Nat.lt_succ_self _

theorem newHost_yields (behaviour : HostFunction) (r : Registry) :
    Yields (fun n f => Value.Owned n (.function f)) (Registry.newHost behaviour) r :=
  ⟨.of_eq rfl, .function (.host _ behaviour)⟩

theorem run_of_eq_some {α : Type} {x : Run α} (h : ∀ r, (x r).isSome) {r : Registry}
    {p : Except EvalError α × Registry} (hx : x r = some p) : Registry.run x h r = p := by
  show (x r).get (h r) = p
  simp only [hx, Option.get_some]

/-- What becomes part of the history is how the run ends. -/
theorem eq_some_run {α : Type} {x : Run α} (h : ∀ r, (x r).isSome) (r : Registry) :
    x r = some (Registry.run x h r) :=
  (Option.some_get (h r)).symm

/-- Runs that settle alike leave the counters as they were, and their outcomes are related. -/
theorem run_settles {α β : Type} {R : α → β → Prop} {x : Run α} {y : Run β} {hx : ∀ r, (x r).isSome}
    {hy : ∀ r, (y r).isSome} {es es' : Evaluations} (h : Settles es es' R x y) (n : Nat) :
    (Registry.run x hx ⟨es, n⟩).2.evaluations = es ∧
      Outcome.Related R (Registry.run x hx ⟨es, n⟩).1 (Registry.run y hy ⟨es', n⟩).1 := by
  obtain ⟨o, o', n', hx', hy', ho⟩ := h n
  rw [run_of_eq_some hx hx', run_of_eq_some hy hy']
  exact ⟨rfl, ho⟩

/-- A value, if there is one, holds closures of the first `n` evaluations only. -/
def Gives {ε : Type} (n : Nat) (o : Except ε Value) : Prop :=
  ∀ v, o = .ok v → Value.Owned n v

theorem run_yields {x : Run Value} {hx : ∀ r, (x r).isSome} {r : Registry}
    (h : Settles r.evaluations r.evaluations (Value.Renumbered (Below r.evaluations.length)) x x) :
    Yields Gives (Registry.run x hx) r := by
  obtain ⟨hevaluations, houtcome⟩ : _ ∧ Outcome.Related _ (Registry.run x hx r).1 (Registry.run x hx r).1 :=
    run_settles h r.functions
  refine ⟨.of_eq hevaluations, fun v hv => ?_⟩
  rw [hevaluations]
  rw [hv] at houtcome
  cases houtcome with
  | ok h => exact h

theorem evaluate_yields {r : Registry} {k : Nat} (hk : k < r.evaluations.length) {scope : Scope}
    (hscope : Scope.Owned r.evaluations.length scope) (e : Expr) :
    Yields Gives (Registry.evaluate k scope e) r :=
  run_yields (Run.evaluate_settles (.below _ _) ⟨rfl, hk⟩ hscope e)

theorem call_yields {r : Registry} {f : Function} {args : List Value}
    (hf : Function.Renumbered (Below r.evaluations.length) f f)
    (hargs : Paired (Value.Renumbered (Below r.evaluations.length)) args args) :
    Yields Gives (Registry.call f args) r :=
  run_yields (Run.call_settles (.below _ _) hf hargs)

end Registry

/-- What is known of a value that was built stays known when more evaluations have been started. -/
theorem Value.Owned.later {n n' : Nat} {v : Value} (h : Value.Owned n v) (hle : n ≤ n') : Value.Owned n' v :=
  h.mono (Below.mono hle)

theorem Scope.Owned.later {n n' : Nat} {scope : List (String × Value)} (h : Scope.Owned n scope) (hle : n ≤ n') :
    Scope.Owned n' scope :=
  entries_mono (Below.mono hle) h

theorem Options.evaluate_yields (o : Options) {r : Registry} {c : Context}
    (hc : Scope.Owned r.evaluations.length c.entries) (e : Expr) :
    Registry.Yields Registry.Gives (o.evaluate e c) r := by
  refine (Registry.start_yields o.maxDepth.toNat r).bind fun k r' hr' hk => ?_
  exact Registry.evaluate_yields hk.2 (hc.later hr'.length_le) e

theorem Options.exec_yields (o : Options) {r : Registry} {c : Context}
    (hc : Scope.Owned r.evaluations.length c.entries) (source : String) :
    Registry.Yields Registry.Gives (o.exec source c) r := by
  rw [Options.exec]
  cases o.parse source with
  | error e => exact .pure nofun
  | ok e =>
    refine (o.evaluate_yields hc e).bind fun outcome r' _ houtcome => .pure fun v hv => ?_
    cases outcome with
    | error _ => cases hv
    | ok w =>
      cases hv
      exact houtcome v rfl

namespace Recipe

section Build

variable {α β : Type} {P : Nat → α → Prop} {Q : Nat → β → Prop} {r : Registry}

/-- Building ends in an error, or in a result with a property that may depend on how many evaluations there are. -/
abbrev Builds (P : Nat → α → Prop) (x : Build α) (r : Registry) : Prop :=
  Registry.Yields (fun n o => ∀ a, o = .ok a → P n a) x.run r

theorem Builds.pure {a : α} (h : P r.evaluations.length a) : Builds P (Pure.pure a) r :=
  Registry.Yields.pure fun _ hb => Except.ok.inj hb ▸ h

theorem Builds.bind {x : Build α} {f : α → Build β} (hx : Builds P x r)
    (hf : ∀ a r', r.Extends r' → P r'.evaluations.length a → Builds Q (f a) r') : Builds Q (x >>= f) r := by
  refine Registry.Yields.bind (f := ExceptT.bindCont f) hx fun o r' hr' ho => ?_
  cases o with
  | error e => exact .pure nofun
  | ok a => exact hf a r' hr' (ho a rfl)

end Build

mutual

/-- A value that is built from slots holds closures of the evaluations started until then. -/
theorem build_yields {slots : Entries Value} {r : Registry} (hslots : Scope.Owned r.evaluations.length slots)
    (recipe : Recipe) : Builds Value.Owned (build slots recipe) r := by
  match recipe with
  | .null => exact .pure .null
  | .boolean b => exact .pure (.boolean b)
  | .number x => exact .pure (.number x)
  | .string s => exact .pure (.string s)
  | .list items => exact (buildItems_yields hslots items).bind fun _ _ _ h => .pure (.list h)
  | .map entries =>
    exact (buildEntries_yields hslots entries).bind fun _ _ _ h => .pure (.map (Entries.insertAll_related .nil h))
  | .host behaviour =>
    refine Builds.bind (P := fun n f => Value.Owned n (.function f)) ?_ fun _ _ _ h => .pure h
    exact (Registry.newHost_yields behaviour r).bind fun _ _ _ h => .pure fun _ hf => Except.ok.inj hf ▸ h
  | .lambda source => exact Options.exec_yields _ .nil source
  | .slot name =>
    refine .pure ?_
    have hfound := Entries.get?_related hslots name
    cases hget : slots.get? name with
    | none => exact .null
    | some v =>
      rw [hget] at hfound
      cases hfound with
      | some h => exact h

theorem buildItems_yields {slots : Entries Value} {r : Registry} (hslots : Scope.Owned r.evaluations.length slots)
    (items : List Recipe) :
    Builds (fun n vs => Paired (Value.Renumbered (Below n)) vs vs) (buildItems slots items) r := by
  match items with
  | [] => exact .pure .nil
  | recipe :: items =>
    refine (build_yields hslots recipe).bind fun v r' hr' hv => ?_
    refine (buildItems_yields (hslots.later hr'.length_le) items).bind fun vs r'' hr'' hvs => ?_
    exact .pure (.cons (hv.later hr''.length_le) hvs)

theorem buildEntries_yields {slots : Entries Value} {r : Registry}
    (hslots : Scope.Owned r.evaluations.length slots) (entries : List (String × Recipe)) :
    Builds Scope.Owned (buildEntries slots entries) r := by
  match entries with
  | [] => exact .pure .nil
  | (name, recipe) :: entries =>
    refine (build_yields hslots recipe).bind fun v r' hr' hv => ?_
    refine (buildEntries_yields (hslots.later hr'.length_le) entries).bind fun vs r'' hr'' hvs => ?_
    exact .pure (.cons (.mk (hv.later hr''.length_le)) hvs)

end

end Recipe

end RuleLang
