import RuleLang.Proofs.Session.History

/-!
# What a session keeps

A step changes at most one name: the slot that it is told to store its value in, the context that it saves, or a name
that it binds, unless it puts another context in the place of the one that there is. All else is kept, over any number
of steps: so a value or a context that was stored is found again until something else is stored under its name.
-/

namespace RuleLang

/-- The slot that a step stores its value in. -/
def Step.target? : Step → Option String
  | .eval _ target | .exec _ target | .evalShared _ target | .set _ target | .call _ _ target => target
  | _ => none

/-- Whether a step may change what the context binds to a name. -/
def Step.Rebinds (name : String) : Step → Prop
  | .bind key _ => key = name
  | .restore _ => True
  | _ => False

namespace Session

/-- What a step leaves as it was. -/
structure Leaves (x : Step) (s s' : Session) : Prop where
  slots : ∀ name, x.target? ≠ some name → s'.slots.get? name = s.slots.get? name
  saved : ∀ name, x ≠ .save name → s'.saved.get? name = s.saved.get? name
  context : ∀ name, ¬x.Rebinds name → s'.context.get? name = s.context.get? name

section Steps

variable {s : Session} {x : Step}

/-- An action that changes nothing but the registry. -/
theorem Leaves.registry (s : Session) (x : Step) (r : Registry) : Leaves x s { s with registry := r } where
  slots _ _ := rfl
  saved _ _ := rfl
  context _ _ := rfl

theorem Leaves.trans {s' s'' : Session} (h : Leaves x s s') (h' : Leaves x s' s'') : Leaves x s s'' where
  slots name hname := (h'.slots name hname).trans (h.slots name hname)
  saved name hname := (h'.saved name hname).trans (h.saved name hname)
  context name hname := (h'.context name hname).trans (h.context name hname)

theorem store_leaves (s : Session) (x : Step) (o : Except ExecError Value) :
    Leaves x s ((store x.target? o).run s).2 := by
  cases o with
  | error e => exact .registry s x s.registry
  | ok v =>
    cases htarget : x.target? with
    | none => exact .registry s x s.registry
    | some key =>
      refine ⟨fun name hname => ?_, fun _ _ => rfl, fun _ _ => rfl⟩
      have hkey : key ≠ name := fun h => hname (htarget.trans (congrArg some h))
      exact (Entries.get?_insert ..).trans (if_neg hkey)

theorem building_leaves {α : Type} {build : Entries Value → Recipe.Build α} {next : α → StateM Session Answer}
    (hnext : ∀ a r, Leaves x { s with registry := r } ((next a).run { s with registry := r }).2) :
    Leaves x s ((building build next).run s).2 := by
  rcases building_cases build next s with ⟨e, r, -, hstep⟩ | ⟨a, r, -, hstep⟩
  · rw [hstep]
    exact .registry s x r
  · rw [hstep]
    exact (Leaves.registry s x r).trans (hnext a r)

/-- Whether it fails or not, a step changes no more than the one name that it is about. -/
theorem perform_leaves (s : Session) (x : Step) : Leaves x s ((perform x).run s).2 := by
  cases x with
  | setOptions o => exact ⟨fun _ _ => rfl, fun _ _ => rfl, fun _ _ => rfl⟩
  | bind key value =>
    refine building_leaves fun v r => ⟨fun _ _ => rfl, fun _ _ => rfl, fun name hname => ?_⟩
    have hkey : ¬key = name := hname
    exact (Entries.get?_insert ..).trans (if_neg hkey)
  | save key =>
    refine ⟨fun _ _ => rfl, fun name hname => ?_, fun _ _ => rfl⟩
    have hkey : key ≠ name := fun h => hname (congrArg Step.save h)
    exact (Entries.get?_insert ..).trans (if_neg hkey)
  | restore key => exact ⟨fun _ _ => rfl, fun _ _ => rfl, fun _ hname => absurd trivial hname⟩
  | showContext => exact .registry s _ s.registry
  | compareContext key => exact .registry s _ s.registry
  | lookup key => exact .registry s _ s.registry
  | parse source key =>
    rw [perform, StateT.run_bind, StateT.run_get, pure_bind]
    cases s.options.parse source with
    | error e => exact .registry s _ s.registry
    | ok e => exact ⟨fun _ _ => rfl, fun _ _ => rfl, fun _ _ => rfl⟩
  | eval key target =>
    rw [perform, StateT.run_bind, StateT.run_get, pure_bind]
    cases s.expressions.get? key with
    | none => exact .registry s _ s.registry
    | some e => exact (Leaves.registry s _ _).trans (store_leaves _ (.eval key target) _)
  | exec source target => exact (Leaves.registry s _ _).trans (store_leaves _ (.exec source target) _)
  | reopen => exact ⟨fun _ _ => rfl, fun _ _ => rfl, fun _ _ => rfl⟩
  | evalShared key target =>
    rw [perform, StateT.run_bind, StateT.run_get, pure_bind]
    cases s.expressions.get? key with
    | none => exact .registry s _ s.registry
    | some e => exact (Leaves.registry s _ _).trans (store_leaves _ (.evalShared key target) _)
  | set value target => exact building_leaves fun v r => store_leaves _ (.set value target) _
  | call slot args target =>
    rw [perform, StateT.run_bind, StateT.run_get, pure_bind]
    cases s.slots.get? slot with
    | none => exact .registry s _ s.registry
    | some v =>
      cases v with
      | function f =>
        refine building_leaves fun values r => ?_
        exact (Leaves.registry _ _ _).trans (store_leaves _ (.call slot args target) _)
      | _ => exact .registry s _ s.registry
  | compare a b => exact building_leaves fun _ r => .registry _ _ _

/-- What is stored in a slot is found there as long as nothing else is stored in it. -/
theorem slots_after {name : String} {steps : List Step} (h : ∀ x ∈ steps, x.target? ≠ some name) (s : Session) :
    (s.after steps).slots.get? name = s.slots.get? name := by
  induction steps generalizing s with
  | nil => rfl
  | cons x steps ih =>
    have hx := h x (List.mem_cons_self ..)
    exact (ih (fun y hy => h y (List.mem_cons_of_mem _ hy)) _).trans ((perform_leaves s x).slots name hx)

theorem saved_after {name : String} {steps : List Step} (h : Step.save name ∉ steps) (s : Session) :
    (s.after steps).saved.get? name = s.saved.get? name := by
  induction steps generalizing s with
  | nil => rfl
  | cons x steps ih =>
    rw [List.mem_cons, not_or] at h
    exact (ih h.2 _).trans ((perform_leaves s x).saved name fun hx => h.1 hx.symm)

theorem context_after {name : String} {steps : List Step} (h : ∀ x ∈ steps, ¬x.Rebinds name) (s : Session) :
    (s.after steps).context.get? name = s.context.get? name := by
  induction steps generalizing s with
  | nil => rfl
  | cons x steps ih =>
    have hx := h x (List.mem_cons_self ..)
    exact (ih (fun y hy => h y (List.mem_cons_of_mem _ hy)) _).trans ((perform_leaves s x).context name hx)

/-- A context that was saved is restored, whatever was done in between. -/
theorem restore_after_save {name : String} {steps : List Step} (h : Step.save name ∉ steps) (s : Session) :
    (s.after (.save name :: steps ++ [.restore name])).context = s.context := by
  have hsaved : (((perform (.save name)).run s).2.after steps).saved.get? name = some s.context :=
    (saved_after h _).trans ((Entries.get?_insert ..).trans (if_pos rfl))
  rw [after, List.cons_append, List.foldl_cons, List.foldl_append]
  show Option.getD (((perform (.save name)).run s).2.after steps |>.saved.get? name) .empty = _
  rw [hsaved]
  rfl

/-- What was computed and is to be stored is stored. -/
theorem store_value {o : Except ExecError Value} {v : Value} {name : String} (hname : x.target? = some name)
    (h : ((store x.target? o).run s).1 = .value v) :
    ((store x.target? o).run s).2.slots.get? name = some v := by
  rw [hname] at h ⊢
  cases o with
  | error e => cases h
  | ok w =>
    cases h
    exact (Entries.get?_insert ..).trans (if_pos rfl)

theorem building_value {α : Type} {build : Entries Value → Recipe.Build α} {next : α → StateM Session Answer}
    {name : String} {v : Value}
    (hnext : ∀ a r, ((next a).run { s with registry := r }).1 = .value v →
      ((next a).run { s with registry := r }).2.slots.get? name = some v)
    (h : ((building build next).run s).1 = .value v) :
    ((building build next).run s).2.slots.get? name = some v := by
  rcases building_cases build next s with ⟨e, r, -, hstep⟩ | ⟨a, r, -, hstep⟩
  · rw [hstep] at h
    cases h
  · rw [hstep] at h ⊢
    exact hnext a r h

/-- A step that answers with a value has stored it, if it was told to. -/
theorem perform_value {name : String} {v : Value} (hname : x.target? = some name)
    (h : ((perform x).run s).1 = .value v) : ((perform x).run s).2.slots.get? name = some v := by
  cases x with
  | eval key target =>
    rw [perform, StateT.run_bind, StateT.run_get, pure_bind] at h ⊢
    cases hfound : s.expressions.get? key with
    | none =>
      rw [hfound] at h
      cases h
    | some e =>
      rw [hfound] at h
      exact store_value (x := .eval key target) hname h
  | exec source target => exact store_value (x := .exec source target) hname h
  | evalShared key target =>
    rw [perform, StateT.run_bind, StateT.run_get, pure_bind] at h ⊢
    cases hfound : s.expressions.get? key with
    | none =>
      rw [hfound] at h
      cases h
    | some e =>
      rw [hfound] at h
      exact store_value (x := .evalShared key target) hname h
  | set value target => exact building_value (fun _ _ => store_value (x := .set value target) hname) h
  | call slot args target =>
    rw [perform, StateT.run_bind, StateT.run_get, pure_bind] at h ⊢
    cases hfound : s.slots.get? slot with
    | none =>
      rw [hfound] at h
      cases h
    | some w =>
      rw [hfound] at h
      cases w with
      | function f => exact building_value (fun _ _ => store_value (x := .call slot args target) hname) h
      | _ => cases h
  | _ => cases hname

/-- A stored value is what its slot gives to a recipe, until another value is stored there. -/
theorem slot_after_value {name : String} {v : Value} {steps : List Step} (hname : x.target? = some name)
    (h : ((perform x).run s).1 = .value v) (hsteps : ∀ y ∈ steps, y.target? ≠ some name) (r : Registry) :
    (Recipe.build (s.after (x :: steps)).slots (.slot name)).run.run r = (.ok v, r) := by
  have hfound : (s.after (x :: steps)).slots.get? name = some v :=
    (slots_after hsteps _).trans (perform_value hname h)
  rw [Recipe.build, hfound]
  rfl

/-- A bound value is what the context has for its name, until the name is bound again or a context is restored. -/
theorem context_after_bind {name : String} {value : Recipe} {v : Value} {r : Registry} {steps : List Step}
    (h : (Recipe.build s.slots value).run.run s.registry = (.ok v, r)) (hsteps : ∀ y ∈ steps, ¬y.Rebinds name) :
    (s.after (.bind name value :: steps)).context.get? name = some v := by
  have hbound : ((perform (.bind name value)).run s).2.context = s.context.bind name v := by
    change (Recipe.build s.slots value).run s.registry = _ at h
    rw [perform]
    simp only [building, StateT.run_bind, StateT.run_get, pure_bind, run_onRegistry]
    rw [h]
    rfl
  refine (context_after hsteps _).trans ?_
  rw [hbound]
  exact (Entries.get?_insert ..).trans (if_pos rfl)

end Steps

end Session

end RuleLang
