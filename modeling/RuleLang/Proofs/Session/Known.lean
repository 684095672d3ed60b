import RuleLang.Proofs.Rules.Independence
import RuleLang.Proofs.Session.Origin

/-!
# What a session knows

Between two steps of a session, the functions in what it keeps have been made, with all that they have captured, and
the evaluations that the closures among them belong to have been started. So they are known to its registry, and each
step leaves a later one. What holds in contexts whose functions are known therefore holds in those of a session, at
any time after.
-/

namespace RuleLang

section Known

variable {made : List Function} {r : Registry}

mutual

/-- Functions are known if they have been recorded, with closures of evaluations that have been started. -/
theorem Value.Related.knownTo (hcounted : r.functions = made.length) {v w : Value}
    (h : Value.Renumbered (Below r.evaluations.length) v w) (hv : Value.Recorded made v) :
    ∀ f ∈ v.functions, f.KnownTo r := by
  match h with
  | .null => exact nofun
  | .boolean _ => exact nofun
  | .number _ => exact nofun
  | .string _ => exact nofun
  | .list hitems => exact items_knownTo hcounted hitems hv
  | .map hentries => exact entries_knownTo hcounted hentries hv
  | .function hf =>
    exact List.forall_mem_singleton.2 (hf.knownTo hcounted (hv _ (List.mem_singleton_self _)))

theorem Function.Renumbered.knownTo (hcounted : r.functions = made.length) {f g : Function}
    (h : Function.Renumbered (Below r.evaluations.length) f g) (hf : f.Recorded made) : f.KnownTo r := by
  have hid : f.id < r.functions := hcounted ▸ hf.id_lt
  match h with
  | .host _ behaviour => exact .host behaviour hid
  | .closure _ param body hk hscope =>
    exact .closure param body hid hk.2 (entries_knownTo hcounted hscope fun _ hg => hf.captured hg)

theorem items_knownTo (hcounted : r.functions = made.length) {xs ys : List Value}
    (h : Paired (Value.Renumbered (Below r.evaluations.length)) xs ys)
    (hxs : ∀ f ∈ Value.functionsOfItems xs, f.Recorded made) : ∀ f ∈ Value.functionsOfItems xs, f.KnownTo r := by
  match h with
  | .nil => exact nofun
  | .cons hv hitems =>
    rw [Value.functionsOfItems, List.forall_mem_append] at hxs ⊢
    exact ⟨hv.knownTo hcounted hxs.1, items_knownTo hcounted hitems hxs.2⟩

theorem entries_knownTo (hcounted : r.functions = made.length) {es fs : List (String × Value)}
    (h : Scope.Renumbered (Below r.evaluations.length) es fs) (hes : Scope.Recorded made es) :
    ∀ f ∈ Value.functionsOfEntries es, f.KnownTo r := by
  match h with
  | .nil => exact nofun
  | .cons (.mk hv) hentries =>
    rw [Scope.Recorded, Value.functionsOfEntries, List.forall_mem_append] at hes
    rw [Value.functionsOfEntries, List.forall_mem_append]
    exact ⟨hv.knownTo hcounted hes.1, entries_knownTo hcounted hentries hes.2⟩

end

end Known

namespace Session

variable {s : Session}

section Registry

variable {r : Registry}

theorem store_extends (h : r.Extends s.registry) (target : Option String) (o : Except ExecError Value) :
    r.Extends ((Session.store target o).run s).2.registry := by
  cases o with
  | error e => exact h
  | ok v =>
    cases target with
    | none => exact h
    | some name => exact h

theorem storeOutcome_extends (target : Option String) {action : StateM Registry (Except EvalError Value)}
    (h : r.Extends (action s.registry).2) :
    r.Extends ((onRegistry action >>= fun o => Session.store target (o.mapError .eval)).run s).2.registry :=
  store_extends (s := { s with registry := (action s.registry).2 }) h target _

theorem building_extends {α : Type} {P : Nat → α → Prop} (build : Entries Value → Recipe.Build α)
    {next : α → StateM Session Answer} (hbuild : Recipe.Builds P (build s.slots) s.registry)
    (hnext : ∀ a r, s.registry.Extends r → P r.evaluations.length a →
      s.registry.Extends ((next a).run { s with registry := r }).2.registry) :
    s.registry.Extends ((building build next).run s).2.registry := by
  obtain ⟨hgrows, hbuilt⟩ := hbuild
  rcases building_cases build next s with ⟨e, r, hrun, hstep⟩ | ⟨a, r, hrun, hstep⟩
  · rw [hrun] at hgrows
    rw [hstep]
    exact hgrows
  · rw [hrun] at hgrows hbuilt
    rw [hstep]
    exact hnext a r hgrows (hbuilt a rfl)

/-- Whether it fails or not, a step keeps the evaluations that there are, and none is under way after it. -/
theorem Valid.registry_extends (h : s.Valid) (x : Step) :
    s.registry.Extends ((Session.perform x).run s).2.registry := by
  cases x with
  | bind name value =>
    exact building_extends (Recipe.build · value) (Recipe.build_yields h.slots value) fun _ _ hr _ => hr
  | parse source name =>
    rw [Session.perform, StateT.run_bind, StateT.run_get, pure_bind]
    cases s.options.parse source with
    | error e => exact .of_eq rfl
    | ok e => exact .of_eq rfl
  | eval name target =>
    rw [Session.perform, StateT.run_bind, StateT.run_get, pure_bind]
    cases s.expressions.get? name with
    | none => exact .of_eq rfl
    | some e => exact storeOutcome_extends target (s.options.evaluate_yields h.context e).grows
  | exec source target =>
    let r := ((s.options.exec source s.context).run s.registry).2
    exact store_extends (s := { s with registry := r }) (s.options.exec_yields h.context source).grows target _
  | reopen => exact (Registry.start_yields s.options.maxDepth.toNat s.registry).grows
  | evalShared name target =>
    rw [Session.perform, StateT.run_bind, StateT.run_get, pure_bind]
    cases s.expressions.get? name with
    | none => exact .of_eq rfl
    | some e =>
      have hscope := h.shared.later (Nat.le_of_lt h.shared_lt)
      exact storeOutcome_extends target (Registry.evaluate_yields h.shared_lt hscope e).grows
  | set value target =>
    refine building_extends (Recipe.build · value) (Recipe.build_yields h.slots value) fun v r hr _ => ?_
    exact store_extends (s := { s with registry := r }) hr target (.ok v)
  | call slot args target =>
    have hfound := Entries.get?_related h.slots slot
    rw [Session.perform, StateT.run_bind, StateT.run_get, pure_bind]
    cases hget : s.slots.get? slot with
    | none => exact .of_eq rfl
    | some v =>
      cases v with
      | function f =>
        rw [hget] at hfound
        refine building_extends (Recipe.buildItems · args) (Recipe.buildItems_yields h.slots args) ?_
        intro values r hr hvalues
        cases hfound with
        | some hv =>
          cases hv with
          | function hf =>
            have hyields := Registry.call_yields (hf.mono (Below.mono hr.length_le)) hvalues
            exact storeOutcome_extends (s := { s with registry := r }) target (hr.trans hyields.grows)
      | _ => exact .of_eq rfl
  | compare a b =>
    refine building_extends (P := fun _ _ => True) _ ?_ fun _ _ hr _ => hr
    refine (Recipe.build_yields h.slots a).bind fun v r hr _ => ?_
    exact (Recipe.build_yields (h.slots.later hr.length_le) b).bind fun _ _ _ _ => .pure trivial
  | _ => exact .of_eq rfl

end Registry

section Reachable

/-- What a session keeps is known to its registry. -/
theorem Reachable.known (h : s.Reachable) : ∀ f ∈ s.functions, f.KnownTo s.registry := by
  obtain ⟨log, hlog⟩ := reachable_iff_history.1 h
  have htracks := hlog.goes.tracks
  have hvalid := h.valid
  intro f hf
  simp only [functions, List.mem_append, List.mem_flatMap] at hf
  rcases hf with ((hf | ⟨entry, hentry, hf⟩) | hf) | hf
  · exact entries_knownTo htracks.counted hvalid.context htracks.context f hf
  · obtain ⟨_, -, hbound⟩ := hvalid.saved.exists_of_mem hentry
    cases hbound with
    | mk hentries => exact entries_knownTo htracks.counted hentries (htracks.saved _ hentry) f hf
  · exact entries_knownTo htracks.counted hvalid.slots htracks.slots f hf
  · have hshared := hvalid.shared.later (Nat.le_of_lt hvalid.shared_lt)
    exact entries_knownTo htracks.counted hshared htracks.shared f hf

theorem Reachable.context_knownTo (h : s.Reachable) : s.context.KnownTo s.registry := by
  intro f hf
  refine h.known f ?_
  simp only [functions, List.mem_append]
  exact .inl (.inl (.inl hf))

theorem Reachable.saved_knownTo (h : s.Reachable) {name : String} {c : Context} (hc : s.saved.get? name = some c) :
    c.KnownTo s.registry := by
  intro f hf
  refine h.known f ?_
  simp only [functions, List.mem_append, List.mem_flatMap]
  exact .inl (.inl (.inr ⟨(name, c), Entries.mem_of_get? hc, hf⟩))

/-- A step leaves a later registry. -/
theorem Reachable.later (h : s.Reachable) (x : Step) : s.registry.Later ((perform x).run s).2.registry := by
  obtain ⟨log, hlog⟩ := reachable_iff_history.1 h
  have htracks := hlog.goes.tracks
  have hcounted := (htracks.perform x).tracks.counted
  rw [List.length_append, ← htracks.counted] at hcounted
  exact ⟨h.valid.registry_extends x, hcounted ▸ Nat.le_add_right ..⟩

theorem Reachable.later_after (h : s.Reachable) (steps : List Step) : s.registry.Later (s.after steps).registry := by
  induction steps generalizing s with
  | nil => exact .refl _
  | cons x steps ih => exact (h.later x).trans (ih (h.step x))

section After

variable {c : Context} (h : s.Reachable) (hc : c.KnownTo s.registry) (steps : List Step)

include h hc

/-- A source text comes to the same after whatever was done in a session, and however that failed. -/
theorem Reachable.outcome_after (o : Options) (source : String) : Outcome.Related (Value.AlikeSince s.registry)
    (o.outcome source c s.registry) (o.outcome source c (s.after steps).registry) := by
  have hexec := Hosts.standard_executes o source c s.registry
  obtain ⟨out, r, hexec', halike⟩ := hexec.follow (Hosts.standard_blind _) hc (h.later_after steps)
  cases hexec'.unique (Hosts.standard_executes o source c (s.after steps).registry)
  exact halike

/-- The report on rules is the same after whatever was done. -/
theorem Reachable.report_after (rules : RuleSet) :
    rules.report c (s.after steps).registry = rules.report c s.registry := by
  have hvalidates := Hosts.standard_validates rules.options rules.rules c (s.after steps).registry
  have hbroken := hvalidates.eq_broken (Hosts.standard_blind _) hc (h.later_after steps)
    fun rule _ => ⟨_, Hosts.standard_executes rules.options rule.expression c s.registry⟩
  exact congrArg Report.mk (hbroken.trans (RuleSet.violations_report rules.options hc rules.rules).symm)

end After

/-- In a context that is saved and restored, a source text comes to what it came to before. -/
theorem Reachable.outcome_restored (h : s.Reachable) {name : String} {steps : List Step}
    (hsteps : Step.save name ∉ steps) (o : Options) (source : String) :
    let s' := s.after (.save name :: steps ++ [.restore name])
    Outcome.Related (Value.AlikeSince s.registry) (o.outcome source s.context s.registry)
      (o.outcome source s'.context s'.registry) := by
  intro s'
  have hcontext : s'.context = s.context := restore_after_save hsteps s
  rw [hcontext]
  exact h.outcome_after h.context_knownTo _ o source

end Reachable

end Session

end RuleLang
