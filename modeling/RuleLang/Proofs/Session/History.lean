import RuleLang.Proofs.Eval.Keeping
import RuleLang.Proofs.Session.Building
import RuleLang.Session.Step

/-!
# The history of a session leaves no trace in its counters

After every step of a session all counters are at zero, whatever the steps were and however they failed. So an
expression has the same outcome in the shared evaluation, however often that was used, as in a new evaluation with
the same scope and limit.
-/

namespace RuleLang

/-- The sessions that a host program can bring about: it builds a context, starts, and does steps. -/
inductive Session.Reachable : Session → Prop
  | start {context : Context} {binds : List (String × Recipe)} {values : List (String × Value)}
      {registry : Registry} (options : Options) :
      (context = .empty ∨ ∃ j, Context.ofJson j = .ok context) →
      (Recipe.buildEntries [] binds).run.run Registry.empty = (.ok values, registry) →
      Reachable (Session.start registry options (context.bindAll values))
  | step {s : Session} (x : Step) : Reachable s → Reachable ((Session.perform x).run s).2

namespace Session

def after (s : Session) (steps : List Step) : Session :=
  steps.foldl (fun s x => ((perform x).run s).2) s

theorem Reachable.after {s : Session} (h : s.Reachable) (steps : List Step) : (s.after steps).Reachable := by
  induction steps generalizing s with
  | nil => exact h
  | cons x steps ih => exact ih (h.step x)

/-- Contexts that bind closures of the first `n` evaluations only. -/
abbrev Owned (n : Nat) (saved : Entries Context) : Prop :=
  Paired (Bound fun c d : Context => Scope.Renumbered (Below n) c.entries d.entries) saved saved

theorem Owned.later {n n' : Nat} {saved : Entries Context} (h : Owned n saved) (hle : n ≤ n') : Owned n' saved := by
  refine h.mono fun a b hab => ?_
  cases hab with
  | mk hentries => exact .mk (entries_mono (Below.mono hle) hentries)

/-- What holds between two steps: all counters are at zero, and whatever is kept holds closures of evaluations that
were started before, in the shared scope before the shared evaluation itself. -/
structure Valid (s : Session) : Prop where
  idle : ∀ e ∈ s.registry.evaluations, e.depth = 0
  context : Scope.Owned s.registry.evaluations.length s.context.entries
  saved : Owned s.registry.evaluations.length s.saved
  slots : Scope.Owned s.registry.evaluations.length s.slots
  shared_lt : s.shared.number < s.registry.evaluations.length
  shared : Scope.Owned s.shared.number s.shared.scope

theorem run_onRegistry {α : Type} (action : StateM Registry α) (s : Session) :
    (onRegistry action).run s = pure ((action s.registry).1, { s with registry := (action s.registry).2 }) :=
  rfl

/-- A step that builds something first fails with the building, or goes on with what was built. -/
theorem building_cases {α : Type} (build : Entries Value → Recipe.Build α) (next : α → StateM Session Answer)
    (s : Session) :
    (∃ e r, (build s.slots).run s.registry = (.error e, r) ∧
      (building build next).run s = (.failed e, { s with registry := r })) ∨
    ∃ a r, (build s.slots).run s.registry = (.ok a, r) ∧
      (building build next).run s = (next a).run { s with registry := r } := by
  simp only [building, StateT.run_bind, StateT.run_get, pure_bind, run_onRegistry]
  obtain ⟨o, r⟩ := (build s.slots).run s.registry
  cases o with
  | error e => exact .inl ⟨e, r, rfl, rfl⟩
  | ok a => exact .inr ⟨a, r, rfl, rfl⟩

namespace Valid

variable {s : Session}

/-- What was known stays known when the registry goes on. -/
theorem extend (h : s.Valid) {r : Registry} (hr : s.registry.Extends r) : { s with registry := r }.Valid where
  idle := hr.idle h.idle
  context := h.context.later hr.length_le
  saved := h.saved.later hr.length_le
  slots := h.slots.later hr.length_le
  shared_lt := Nat.lt_of_lt_of_le h.shared_lt hr.length_le
  shared := h.shared

/-- A new shared evaluation has a number above all closures in its scope. -/
theorem reopen {r : Registry} {o : Options} {c : Context} {saved : Entries Context} {slots : Entries Value}
    {expressions : Entries Expr} {shared : SharedEvaluation} (hidle : ∀ e ∈ r.evaluations, e.depth = 0)
    (hc : Scope.Owned r.evaluations.length c.entries) (hsaved : Owned r.evaluations.length saved)
    (hslots : Scope.Owned r.evaluations.length slots) :
    ((Session.reopen).run ⟨r, o, c, saved, slots, expressions, shared⟩).2.Valid := by
  have hstart := Registry.start_yields o.maxDepth.toNat r
  exact
    { idle := hstart.grows.idle hidle
      context := hc.later hstart.grows.length_le
      saved := hsaved.later hstart.grows.length_le
      slots := hslots.later hstart.grows.length_le
      shared_lt := hstart.result.2
      shared := hc }

theorem store (h : s.Valid) (target : Option String) {o : Except ExecError Value}
    (ho : Registry.Gives s.registry.evaluations.length o) : ((Session.store target o).run s).2.Valid := by
  cases o with
  | error e => exact h
  | ok v =>
    cases target with
    | none => exact h
    | some name => exact { h with slots := Entries.insert_related h.slots name (ho v rfl) }

/-- The outcome of a run that starts while no evaluation is under way may be stored. -/
theorem storeOutcome (h : s.Valid) (target : Option String) {action : StateM Registry (Except EvalError Value)}
    (hyields : Registry.Yields Registry.Gives action s.registry) :
    ((onRegistry action >>= fun o => Session.store target (o.mapError .eval)).run s).2.Valid := by
  refine (h.extend hyields.grows).store target fun v hv => ?_
  have hresult := hyields.result
  cases ho : (action s.registry).1 with
  | error e =>
    rw [ho] at hv
    cases hv
  | ok w =>
    rw [ho] at hv hresult
    cases hv
    exact hresult v rfl

/-- A step that builds something first is safe if it is with whatever can be built. -/
theorem building (h : s.Valid) {α : Type} {P : Nat → α → Prop} {build : Entries Value → Recipe.Build α}
    {next : α → StateM Session Answer} (hbuild : Recipe.Builds P (build s.slots) s.registry)
    (hnext : ∀ a r, s.registry.Extends r → P r.evaluations.length a →
      ((next a).run { s with registry := r }).2.Valid) : ((Session.building build next).run s).2.Valid := by
  obtain ⟨hgrows, hbuilt⟩ := hbuild
  rcases building_cases build next s with ⟨e, r, hrun, hstep⟩ | ⟨a, r, hrun, hstep⟩
  · rw [hrun] at hgrows
    rw [hstep]
    exact h.extend hgrows
  · rw [hrun] at hgrows hbuilt
    rw [hstep]
    exact hnext a r hgrows (hbuilt a rfl)

/-- Every step keeps a session valid, whether it fails or not. -/
theorem perform (h : s.Valid) (x : Step) : ((Session.perform x).run s).2.Valid := by
  cases x with
  | setOptions o => exact { h with }
  | bind name value =>
    refine h.building (Recipe.build_yields h.slots value) fun v r hr hv => ?_
    exact { h.extend hr with context := Entries.insert_related (h.extend hr).context name hv }
  | save name => exact { h with saved := Entries.insert_related h.saved name h.context }
  | restore name =>
    refine { h with context := ?_ }
    have hfound := Entries.get?_related h.saved name
    show Scope.Owned _ ((s.saved.get? name).getD .empty).entries
    cases hget : s.saved.get? name with
    | none => exact .nil
    | some c =>
      rw [hget] at hfound
      cases hfound with
      | some hc => exact hc
  | showContext => exact h
  | compareContext name => exact h
  | lookup name => exact h
  | parse source name =>
    rw [Session.perform, StateT.run_bind, StateT.run_get, pure_bind]
    cases s.options.parse source with
    | error e => exact h
    | ok e => exact { h with }
  | eval name target =>
    rw [Session.perform, StateT.run_bind, StateT.run_get, pure_bind]
    cases s.expressions.get? name with
    | none => exact h
    | some e => exact h.storeOutcome target (s.options.evaluate_yields h.context e)
  | exec source target =>
    have hyields := s.options.exec_yields h.context source
    exact (h.extend hyields.grows).store target hyields.result
  | reopen => exact .reopen h.idle h.context h.saved h.slots
  | evalShared name target =>
    rw [Session.perform, StateT.run_bind, StateT.run_get, pure_bind]
    cases s.expressions.get? name with
    | none => exact h
    | some e =>
      have hscope := h.shared.later (Nat.le_of_lt h.shared_lt)
      exact h.storeOutcome target (Registry.evaluate_yields h.shared_lt hscope e)
  | set value target =>
    refine h.building (Recipe.build_yields h.slots value) fun v r hr hv => ?_
    refine (h.extend hr).store target fun w hw => ?_
    cases hw
    exact hv
  | call slot args target =>
    have hfound := Entries.get?_related h.slots slot
    rw [Session.perform, StateT.run_bind, StateT.run_get, pure_bind]
    cases hget : s.slots.get? slot with
    | none => exact h
    | some v =>
      cases v with
      | function f =>
        rw [hget] at hfound
        refine h.building (Recipe.buildItems_yields h.slots args) fun values r hr hvalues => ?_
        cases hfound with
        | some hv =>
          cases hv with
          | function hf =>
            have hyields := Registry.call_yields (hf.mono (Below.mono hr.length_le)) hvalues
            exact (h.extend hr).storeOutcome target hyields
      | _ => exact h
  | compare a b =>
    refine h.building (P := fun _ _ => True) ?_ fun _ r hr _ => h.extend hr
    refine (Recipe.build_yields h.slots a).bind fun v r hr _ => ?_
    exact (Recipe.build_yields (h.slots.later hr.length_le) b).bind fun _ _ _ _ => .pure trivial

end Valid

theorem Reachable.valid {s : Session} (h : s.Reachable) : s.Valid := by
  induction h with
  | @start context binds values registry options hcontext hbuild =>
    have hbuilt : Recipe.Builds Scope.Owned (Recipe.buildEntries [] binds) .empty :=
      Recipe.buildEntries_yields .nil binds
    have hgrows := hbuilt.grows
    have hresult := hbuilt.result
    change (Recipe.buildEntries [] binds).run .empty = _ at hbuild
    rw [hbuild] at hgrows hresult
    refine .reopen (hgrows.idle nofun) (Entries.insertAll_related ?_ (hresult values rfl)) .nil .nil
    rcases hcontext with rfl | ⟨j, hj⟩
    · exact .nil
    · exact Context.ofJson_related hj
  | step x _ ih => exact ih.perform x

/-- The numbers below `k` as they are, and `j` in place of `k`. -/
def InPlace (k j i i' : Nat) : Prop :=
  Below k i i' ∨ (i = k ∧ i' = j)

/-- A new evaluation with the limit of an idle one takes its place. -/
theorem renumbering_inPlace {es : Evaluations} {k : Nat} (hk : k < es.length) (hidle : ∀ e ∈ es, e.depth = 0) :
    Renumbering (InPlace k es.length) es (es ++ [⟨(es.get k).limit, 0⟩]) where
  agree := by
    rintro i j (⟨rfl, hi⟩ | ⟨rfl, rfl⟩)
    · exact (es.get_append_of_lt _ (Nat.lt_trans hi hk)).symm
    · rw [Evaluations.get_concat_length]
      exact congrArg (Evaluation.mk _) (Evaluations.depth_get_of_idle hidle i)
  unique := by
    rintro i j i' j' (⟨rfl, hi⟩ | ⟨rfl, rfl⟩) (⟨rfl, hi'⟩ | ⟨rfl, rfl⟩)
    · exact Iff.rfl
    · omega
    · omega
    · exact ⟨fun _ => rfl, fun _ => rfl⟩

/-- The outcome of an expression in the shared evaluation. -/
def evaluateShared (s : Session) (e : Expr) : Except EvalError Value :=
  ((Registry.evaluate s.shared.number s.shared.scope e).run s.registry).1

/-- The outcome of an expression in a new evaluation with the scope and the limit of the shared one. -/
def evaluateAfresh (s : Session) (e : Expr) : Except EvalError Value :=
  let limit := (s.registry.evaluations.get s.shared.number).limit
  ((Registry.start limit >>= fun k => Registry.evaluate k s.shared.scope e).run s.registry).1

/-- In the shared evaluation an expression has the outcome that it has in a new one. -/
theorem Valid.evaluateShared_related {s : Session} (h : s.Valid) (e : Expr) :
    Outcome.Related (Value.Renumbered (InPlace s.shared.number s.registry.evaluations.length))
      (s.evaluateShared e) (s.evaluateAfresh e) := by
  have hrenumbering := renumbering_inPlace h.shared_lt h.idle
  have hscope : Scope.Renumbered (InPlace s.shared.number s.registry.evaluations.length) s.shared.scope
      s.shared.scope := entries_mono (fun _ _ => .inl) h.shared
  have hsettles := Run.evaluate_settles hrenumbering (.inr ⟨rfl, rfl⟩) hscope e
  exact (Registry.run_settles hsettles s.registry.functions).2

theorem run_evaluations {α : Type} {x : Run α} (hx : x.Restores) (h : ∀ r, (x r).isSome) (r : Registry) :
    ((Registry.run x h).run r).2.evaluations = r.evaluations :=
  hx r _ _ (Registry.eq_some_run h r)

/--
An evaluation or a call that has ended has put all counters back, from outside as well as within another run and
with whatever fuel is left there, so between the steps of a session they are all at zero; and the shared evaluation,
whatever was done in it before, gives an expression the outcome that it has in a new evaluation: the same error, or
a value in which only the closures that were made just now differ, by the evaluation that they belong to.
-/
theorem shared_outcome_independent :
    (∀ r k scope e, ((Registry.evaluate k scope e).run r).2.evaluations = r.evaluations) ∧
    (∀ r f args, ((Registry.call f args).run r).2.evaluations = r.evaluations) ∧
    (∀ fuel k depth scope e, (evaluateNode fuel k depth scope e).Restores) ∧
    (∀ fuel f args, (RuleLang.perform (fromCounter (evaluateNode fuel)) f args).Restores) ∧
    ∀ s : Session, s.Reachable → (∀ e ∈ s.registry.evaluations, e.depth = 0) ∧
      ∀ e, Outcome.Related (Value.Renumbered (InPlace s.shared.number s.registry.evaluations.length))
        (s.evaluateShared e) (s.evaluateAfresh e) := by
  refine ⟨fun r k scope e => ?_, fun r f args => ?_, evaluateNode_restores, perform_restores, fun s hs => ?_⟩
  · have hrestores : (Run.evaluate k scope e).Restores :=
      fun r o r' h => evaluateNode_restores r.fuel k 0 scope e r o r' h
    exact run_evaluations hrestores _ r
  · have hrestores : (Run.call f args).Restores :=
      fun r o r' h => perform_restores r.fuel (.inr f) args r o r' h
    exact run_evaluations hrestores _ r
  · exact ⟨hs.valid.idle, hs.valid.evaluateShared_related⟩

/-- A host function that keeps calling a closure with itself, in an evaluation that has failed like this before. -/
theorem shared_outcome_independent_apply :
    let opened := Session.start ⟨[], 1⟩ {} (Context.empty.bindAll [("apply", .function (.host 0 .apply))])
    let s := opened.after [.parse "apply(f => apply(f, f), f => apply(f, f))" "loop", .evalShared "loop" none]
    s.Reachable ∧ (∀ e ∈ s.registry.evaluations, e.depth = 0) ∧
      ∀ e, Outcome.Related (Value.Renumbered (InPlace s.shared.number s.registry.evaluations.length))
        (s.evaluateShared e) (s.evaluateAfresh e) := by
  intro opened s
  have hopened : opened.Reachable :=
    @Session.Reachable.start .empty [("apply", .host .apply)] _ _ {} (.inl rfl) rfl
  exact ⟨hopened.after _, shared_outcome_independent.2.2.2.2 s (hopened.after _)⟩

end Session

end RuleLang
