import RuleLang.Proofs.Entries
import RuleLang.Proofs.Eval.Creation
import RuleLang.Proofs.Eval.Outcome
import RuleLang.Proofs.Session.History

/-!
# What happens in a session

Functions are made in the evaluations and calls of a session, and where values are built for it: each mention of a host
function or of a lambda makes one. `Session.History` says that a session can be brought about, and what happened until
then, first to last. `Session.Tracks` is the invariant of its steps: the functions made so far have been counted, and
whatever the session keeps has recorded functions only, in the contexts that were saved and in the scope of the shared
evaluation as well. It does not matter whether a step succeeds.
-/

namespace RuleLang

section Scopes

variable {made made' : List Function} {es : Entries Value} {v : Value}

theorem Value.Recorded.mono (h : Value.Recorded made v) (hmore : made <+: made') : Value.Recorded made' v :=
  fun f hf => (h f hf).mono hmore

theorem Scope.Recorded.mono (h : Scope.Recorded made es) (hmore : made <+: made') : Scope.Recorded made' es :=
  fun f hf => (h f hf).mono hmore

theorem Scope.Recorded.get? (h : Scope.Recorded made es) {name : String} (hv : es.get? name = some v) :
    Value.Recorded made v := by
  have hfound := Entries.get?_related (entries_related_of_functions h) name
  rw [hv] at hfound
  cases hfound with
  | some hv => exact hv.only.2

theorem Scope.Recorded.insert (h : Scope.Recorded made es) (name : String) (hv : Value.Recorded made v) :
    Scope.Recorded made (es.insert name v) := by
  have hentries := Entries.insert_related (entries_related_of_functions h) name (Value.related_of_functions hv)
  exact (entries_related_only hentries).2

theorem Scope.Recorded.insertAll (h : Scope.Recorded made es) {pairs : List (String × Value)}
    (hpairs : Scope.Recorded made pairs) : Scope.Recorded made (es.insertAll pairs) := by
  have hentries := Entries.insertAll_related (entries_related_of_functions h) (entries_related_of_functions hpairs)
  exact (entries_related_only hentries).2

end Scopes

namespace Registry

variable {α β : Type} {made : List Function} {P : List Function → α → Prop} {Q : List Function → β → Prop}
  {r : Registry} {events : List Event}

theorem Logged.pure {a : α} (hr : r.functions = made.length) (h : P made a) : Logged made P (a, r) [] := by
  constructor
  · exact fun _ => trivial
  · rw [Event.ledger, List.flatMap_nil, List.append_nil]
    exact hr
  · rw [Event.ledger, List.flatMap_nil, List.append_nil]
    exact h

theorem Logged.bind {x : StateM Registry α} {f : α → StateM Registry β} (after : α → Registry → List Event)
    (hx : Logged made P (x.run r) events)
    (hf : ∀ a r', r'.functions = (made ++ Event.ledger events).length → P (made ++ Event.ledger events) a →
      Logged (made ++ Event.ledger events) Q ((f a).run r') (after a r')) :
    Logged made Q ((x >>= f).run r) (events ++ after (x.run r).1 (x.run r).2) := by
  have hnext := hf (x.run r).1 (x.run r).2 hx.counted hx.result
  have hledger (later : List Event) :
      made ++ Event.ledger (events ++ later) = made ++ Event.ledger events ++ Event.ledger later := by
    rw [Event.ledger_append, List.append_assoc]
  constructor
  · exact hx.orderly.append hnext.orderly
  · rw [hledger]
    exact hnext.counted
  · rw [hledger]
    exact hnext.result

theorem Logged.mono {p : α × Registry} (h : Logged made P p events) {b : β}
    (hb : P (made ++ Event.ledger events) p.1 → Q (made ++ Event.ledger events) b) : Logged made Q (b, p.2) events :=
  ⟨h.orderly, h.counted, hb h.result⟩

theorem Accounted.mapError {ε ε' : Type} {o : Except ε Value} (h : Accounted made o) (f : ε → ε') :
    Accounted made (o.mapError f) := by
  intro v hv
  cases o with
  | error e => cases hv
  | ok w =>
    cases hv
    exact h v rfl

/-- A host function that is handed over is the next function. -/
theorem newHost_logged (hr : r.functions = made.length) (behaviour : HostFunction) :
    Logged made (fun made f => Function.Recorded made f) ((Registry.newHost behaviour).run r)
      [Event.create (.host r.functions behaviour)] := by
  constructor
  · exact fun L => ⟨fun hL => ⟨hL ▸ hr, nofun⟩, trivial⟩
  · show r.functions + 1 = (made ++ [Function.host r.functions behaviour]).length
    rw [List.length_append, hr]
    rfl
  · refine .of_captured ?_ nofun
    show (made ++ [Function.host r.functions behaviour])[r.functions]? = some (Function.host r.functions behaviour)
    rw [hr, List.getElem?_append_right (Nat.le_refl _), Nat.sub_self]
    rfl

end Registry

namespace Options

variable {made : List Function} {r : Registry} {c : Context}

/-- What happens in an evaluation of its own. -/
def evaluateEvents (o : Options) (e : Expr) (c : Context) (r : Registry) : List Event :=
  (Recording.evaluate r.evaluations.length c.scope e).events (r.started o.maxDepth.toNat)

def execEvents (o : Options) (source : String) (c : Context) (r : Registry) : List Event :=
  match o.parse source with
  | .error _ => []
  | .ok e => o.evaluateEvents e c r

theorem evaluate_logged (o : Options) (hr : r.functions = made.length) (hc : Scope.Recorded made c.entries)
    (e : Expr) : Registry.Logged made Registry.Accounted ((o.evaluate e c).run r) (o.evaluateEvents e c r) := by
  have hstarted : (r.started o.maxDepth.toNat).functions = made.length := hr
  exact Registry.evaluate_logged hstarted r.evaluations.length hc e

theorem exec_logged (o : Options) (hr : r.functions = made.length) (hc : Scope.Recorded made c.entries)
    (source : String) :
    Registry.Logged made Registry.Accounted ((o.exec source c).run r) (o.execEvents source c r) := by
  rw [exec, execEvents]
  cases o.parse source with
  | error e =>
    refine .pure hr fun v hv => ?_
    cases hv
  | ok e => exact (o.evaluate_logged hr hc e).mono fun ho => ho.mapError _

theorem evaluateEvents_lambda {o : Options} (h : 1 ≤ o.maxDepth.toNat) (param : String) (body : Expr)
    (c : Context) (r : Registry) : o.evaluateEvents (.lambda param body) c r =
      [.enter c.scope, .create (.closure r.functions r.evaluations.length param body c.scope),
        .leave (.function (.closure r.functions r.evaluations.length param body c.scope))] := by
  have hlimit : 0 < ((r.started o.maxDepth.toNat).evaluations.get r.evaluations.length).limit := by
    rw [Registry.get_started]
    exact h
  rw [evaluateEvents, Recording.events, Recording.evaluate, Recording.bind_apply]
  show ((Option.map _ (recordNode (r.started o.maxDepth.toNat).fuel _ 0 _ _ _)).map Prod.snd).getD [] = _
  rw [Registry.fuel, recordNode_lambda hlimit]
  rfl

end Options

namespace Recipe

/-- What happens after a part of the building, if that part succeeds. -/
def onSuccess {α : Type} (next : α → Registry → List Event) : Except ExecError α → Registry → List Event
  | .ok a, r => next a r
  | .error _, _ => []

def Build.afterwards {α : Type} (x : Build α) (next : α → Registry → List Event) (r : Registry) : List Event :=
  onSuccess next (x.run.run r).1 (x.run.run r).2

mutual

/-- What happens while a value is built. -/
def events (slots : Entries Value) : Recipe → Registry → List Event
  | .list items, r => itemEvents slots items r
  | .map entries, r => entryEvents slots entries r
  | .host behaviour, r => [.create (.host r.functions behaviour)]
  | .lambda source, r => ({} : Options).execEvents source .empty r
  | _, _ => []

def itemEvents (slots : Entries Value) : List Recipe → Registry → List Event
  | [], _ => []
  | recipe :: items, r =>
    recipe.events slots r ++ (build slots recipe).afterwards (fun _ => itemEvents slots items) r

def entryEvents (slots : Entries Value) : List (String × Recipe) → Registry → List Event
  | [], _ => []
  | (_, recipe) :: entries, r =>
    recipe.events slots r ++ (build slots recipe).afterwards (fun _ => entryEvents slots entries) r

end

section Build

variable {α β : Type} {made : List Function} {P : List Function → α → Prop} {Q : List Function → β → Prop}
  {r : Registry} {events : List Event}

/-- Building ends in an error, or in a result with a property that may depend on what has been made by then. -/
abbrev Logs (made : List Function) (P : List Function → α → Prop) (x : Build α) (r : Registry)
    (events : List Event) : Prop :=
  Registry.Logged made (fun made o => ∀ a, o = .ok a → P made a) (x.run.run r) events

theorem Logs.pure {a : α} (hr : r.functions = made.length) (h : P made a) : Logs made P (Pure.pure a) r [] := by
  refine Registry.Logged.pure hr fun b hb => ?_
  cases hb
  exact h

theorem Logs.bind {x : Build α} {f : α → Build β} {after : α → Registry → List Event} (hx : Logs made P x r events)
    (hf : ∀ a r', r'.functions = (made ++ Event.ledger events).length → P (made ++ Event.ledger events) a →
      Logs (made ++ Event.ledger events) Q (f a) r' (after a r')) :
    Logs made Q (x >>= f) r (events ++ x.afterwards after r) := by
  refine Registry.Logged.bind (f := ExceptT.bindCont f) (onSuccess after) hx fun o r' hr' ho => ?_
  cases o with
  | error e => exact .pure hr' nofun
  | ok a => exact hf a r' hr' (ho a rfl)

@[simp]
theorem Build.afterwards_nil (x : Build α) (r : Registry) : x.afterwards (fun _ _ => []) r = [] := by
  rw [Build.afterwards]
  cases (x.run.run r).1 <;> rfl

/-- What is done with a result that is there makes nothing more. -/
theorem Logs.map {x : Build α} {f : α → β} (hx : Logs made P x r events)
    (hf : ∀ a, P (made ++ Event.ledger events) a → Q (made ++ Event.ledger events) (f a)) :
    Logs made Q (do return f (← x)) r events := by
  have hbind : Logs made Q (do return f (← x)) r (events ++ x.afterwards (fun _ _ => []) r) :=
    hx.bind fun a _ hr' ha => .pure hr' (hf a ha)
  rw [Build.afterwards_nil, List.append_nil] at hbind
  exact hbind

end Build

variable {slots : Entries Value}

mutual

/-- All that happens while a value is built follows on what had been made before. -/
theorem build_logged {made : List Function} {r : Registry} (hr : r.functions = made.length)
    (hslots : Scope.Recorded made slots) (recipe : Recipe) :
    Logs made Value.Recorded (build slots recipe) r (recipe.events slots r) := by
  match recipe with
  | .null => exact .pure hr nofun
  | .boolean b => exact .pure hr nofun
  | .number x => exact .pure hr nofun
  | .string s => exact .pure hr nofun
  | .list items =>
    rw [build, events]
    exact (buildItems_logged hr hslots items).map fun _ h => h
  | .map entries =>
    rw [build, events]
    refine (buildEntries_logged hr hslots entries).map fun pairs hpairs => ?_
    have hnil : Scope.Recorded (made ++ Event.ledger (entryEvents slots entries r)) [] := nofun
    exact hnil.insertAll hpairs
  | .host behaviour =>
    have hnew : Logs made (fun made f => Function.Recorded made f) (Registry.newHost behaviour) r _ :=
      (Registry.newHost_logged hr behaviour).mono fun h f hf => Except.ok.inj hf ▸ h
    rw [build, events]
    exact hnew.map fun _ h => List.forall_mem_singleton.2 h
  | .lambda source =>
    have hempty : Scope.Recorded made Context.empty.entries := nofun
    rw [build, events]
    exact Options.exec_logged _ hr hempty source
  | .slot name =>
    rw [build]
    refine .pure hr ?_
    cases hget : slots.get? name with
    | none => exact nofun
    | some v => exact hslots.get? hget

theorem buildItems_logged {made : List Function} {r : Registry} (hr : r.functions = made.length)
    (hslots : Scope.Recorded made slots) (items : List Recipe) :
    Logs made (fun made vs => ∀ f ∈ Value.functionsOfItems vs, f.Recorded made) (buildItems slots items) r
      (itemEvents slots items r) := by
  match items with
  | [] => exact .pure hr nofun
  | recipe :: items =>
    rw [buildItems, itemEvents]
    refine (build_logged hr hslots recipe).bind fun v r' hr' hv => ?_
    have hlater := hslots.mono (List.prefix_append made (Event.ledger (recipe.events slots r)))
    refine (buildItems_logged hr' hlater items).map fun vs hvs => ?_
    exact List.forall_mem_append.2 ⟨hv.mono (List.prefix_append ..), hvs⟩

theorem buildEntries_logged {made : List Function} {r : Registry} (hr : r.functions = made.length)
    (hslots : Scope.Recorded made slots) (entries : List (String × Recipe)) :
    Logs made Scope.Recorded (buildEntries slots entries) r (entryEvents slots entries r) := by
  match entries with
  | [] => exact .pure hr nofun
  | (name, recipe) :: entries =>
    rw [buildEntries, entryEvents]
    refine (build_logged hr hslots recipe).bind fun v r' hr' hv => ?_
    have hlater := hslots.mono (List.prefix_append made (Event.ledger (recipe.events slots r)))
    refine (buildEntries_logged hr' hlater entries).map fun pairs hpairs => ?_
    exact List.forall_mem_append.2 ⟨hv.mono (List.prefix_append ..), hpairs⟩

end

end Recipe

namespace Session

/-- What happens in a step. -/
def events (s : Session) : Step → List Event
  | .bind _ value | .set value _ => value.events s.slots s.registry
  | .eval name _ =>
    match s.expressions.get? name with
    | none => []
    | some e => s.options.evaluateEvents e s.context s.registry
  | .exec source _ => s.options.execEvents source s.context s.registry
  | .evalShared name _ =>
    match s.expressions.get? name with
    | none => []
    | some e => (Recording.evaluate s.shared.number s.shared.scope e).events s.registry
  | .call slot args _ =>
    match s.slots.get? slot with
    | some (.function f) =>
      Recipe.itemEvents s.slots args s.registry ++
        (Recipe.buildItems s.slots args).afterwards (fun values => (Recording.call f values).events) s.registry
    | _ => []
  | .compare a b =>
    a.events s.slots s.registry ++ (Recipe.build s.slots a).afterwards (fun _ => b.events s.slots) s.registry
  | _ => []

/-- The sessions that a host program can bring about, each with what happened until then. -/
inductive History : Session → List Event → Prop
  | start {context : Context} {binds : List (String × Recipe)} {values : List (String × Value)}
      {registry : Registry} (options : Options) :
      (context = .empty ∨ ∃ j, Context.ofJson j = .ok context) →
      (Recipe.buildEntries [] binds).run.run Registry.empty = (.ok values, registry) →
      History (Session.start registry options (context.bindAll values)) (Recipe.entryEvents [] binds .empty)
  | step {s : Session} {log : List Event} (x : Step) :
      History s log → History ((perform x).run s).2 (log ++ s.events x)

theorem reachable_iff_history {s : Session} : s.Reachable ↔ ∃ log, s.History log := by
  constructor
  · intro h
    induction h with
    | start options hcontext hbuild => exact ⟨_, .start options hcontext hbuild⟩
    | step x _ ih =>
      obtain ⟨log, hlog⟩ := ih
      exact ⟨_, hlog.step x⟩
  · intro ⟨log, h⟩
    induction h with
    | start options hcontext hbuild => exact .start options hcontext hbuild
    | step x _ ih => exact ih.step x

/-- What is known of a session when `made` has been made: so many functions have been counted, and all functions in
what the session keeps are recorded. -/
structure Tracks (made : List Function) (s : Session) : Prop where
  counted : s.registry.functions = made.length
  context : Scope.Recorded made s.context.entries
  saved : ∀ entry ∈ s.saved, Scope.Recorded made entry.2.entries
  slots : Scope.Recorded made s.slots
  shared : Scope.Recorded made s.shared.scope

/-- Something happens in order, and what is known of the session afterwards. -/
structure Goes (made : List Function) (events : List Event) (s : Session) : Prop where
  orderly : Event.Orderly made events
  tracks : s.Tracks (made ++ Event.ledger events)

theorem Goes.append {made : List Function} {events later : List Event} {s : Session}
    (h : Event.Orderly made events) (h' : Goes (made ++ Event.ledger events) later s) :
    Goes made (events ++ later) s := by
  refine ⟨h.append h'.orderly, ?_⟩
  rw [Event.ledger_append, ← List.append_assoc]
  exact h'.tracks

namespace Tracks

variable {made : List Function} {s : Session} {events : List Event}

/-- A step in which nothing happens. -/
theorem goes (h : s.Tracks made) : Goes made [] s := by
  refine ⟨fun _ => trivial, ?_⟩
  rw [Event.ledger, List.flatMap_nil, List.append_nil]
  exact h

/-- What the session keeps is recorded when more has been made as well. -/
theorem extend (h : s.Tracks made) {α : Type} {P : List Function → α → Prop} {p : α × Registry}
    (hp : Registry.Logged made P p events) : { s with registry := p.2 }.Tracks (made ++ Event.ledger events) where
  counted := hp.counted
  context := h.context.mono (List.prefix_append ..)
  saved entry hentry := (h.saved entry hentry).mono (List.prefix_append ..)
  slots := h.slots.mono (List.prefix_append ..)
  shared := h.shared.mono (List.prefix_append ..)

theorem store (h : s.Tracks made) (target : Option String) {o : Except ExecError Value}
    (ho : Registry.Accounted made o) : ((Session.store target o).run s).2.Tracks made := by
  cases o with
  | error e => exact h
  | ok v =>
    cases target with
    | none => exact h
    | some name => exact { h with slots := h.slots.insert name (ho v rfl) }

/-- The outcome of an action may be stored. -/
theorem storeOutcome (h : s.Tracks made) (target : Option String) {action : StateM Registry (Except EvalError Value)}
    (haction : Registry.Logged made Registry.Accounted (action.run s.registry) events) :
    Goes made events ((onRegistry action >>= fun o => Session.store target (o.mapError .eval)).run s).2 :=
  ⟨haction.orderly, (h.extend haction).store target (haction.result.mapError ExecError.eval)⟩

/-- A step that builds something first goes on with whatever was built. -/
theorem building (h : s.Tracks made) {α : Type} {P : List Function → α → Prop} (build : Entries Value → Recipe.Build α)
    {next : α → StateM Session Answer} (after : α → Registry → List Event)
    (hbuild : Recipe.Logs made P (build s.slots) s.registry events)
    (hnext : ∀ a r, { s with registry := r }.Tracks (made ++ Event.ledger events) → P (made ++ Event.ledger events) a →
      Goes (made ++ Event.ledger events) (after a r) ((next a).run { s with registry := r }).2) :
    Goes made (events ++ (build s.slots).afterwards after s.registry) ((Session.building build next).run s).2 := by
  have hbuilt := hbuild.result
  have htracks := h.extend hbuild
  refine .append hbuild.orderly ?_
  unfold Recipe.Build.afterwards
  change ∀ a, ((build s.slots).run s.registry).1 = .ok a → _ at hbuilt
  change { s with registry := ((build s.slots).run s.registry).2 }.Tracks _ at htracks
  change Goes _ (Recipe.onSuccess after ((build s.slots).run s.registry).1 ((build s.slots).run s.registry).2) _
  rcases building_cases build next s with ⟨e, r, hrun, hstep⟩ | ⟨a, r, hrun, hstep⟩
  · rw [hrun] at htracks ⊢
    rw [hstep]
    exact htracks.goes
  · rw [hrun] at hbuilt htracks ⊢
    rw [hstep]
    exact hnext a r htracks (hbuilt a rfl)

/-- A step that builds something first, and in which nothing happens after that. -/
theorem buildingLast (h : s.Tracks made) {α : Type} {P : List Function → α → Prop}
    {build : Entries Value → Recipe.Build α} {next : α → StateM Session Answer}
    (hbuild : Recipe.Logs made P (build s.slots) s.registry events)
    (hnext : ∀ a r, { s with registry := r }.Tracks (made ++ Event.ledger events) → P (made ++ Event.ledger events) a →
      ((next a).run { s with registry := r }).2.Tracks (made ++ Event.ledger events)) :
    Goes made events ((Session.building build next).run s).2 := by
  have hgoes := h.building build (fun _ _ => []) hbuild fun a r hr ha => (hnext a r hr ha).goes
  rw [Recipe.Build.afterwards_nil, List.append_nil] at hgoes
  exact hgoes

/-- Every step keeps track, whether it fails or not. -/
theorem perform (h : s.Tracks made) (x : Step) : Goes made (s.events x) ((Session.perform x).run s).2 := by
  cases x with
  | setOptions o => exact Tracks.goes { h with }
  | bind name value =>
    refine h.buildingLast (Recipe.build_logged h.counted h.slots value) fun v r hr hv => ?_
    exact { hr with context := hr.context.insert name hv }
  | save name =>
    refine Tracks.goes { h with saved := fun entry hentry => ?_ }
    rcases Entries.mem_insert hentry with hvalue | hentry
    · rw [hvalue]
      exact h.context
    · exact h.saved entry hentry
  | restore name =>
    refine Tracks.goes { h with context := ?_ }
    show Scope.Recorded made ((s.saved.get? name).getD .empty).entries
    cases hget : s.saved.get? name with
    | none => exact nofun
    | some c => exact h.saved (name, c) (Entries.mem_of_get? hget)
  | showContext => exact h.goes
  | compareContext name => exact h.goes
  | lookup name => exact h.goes
  | parse source name =>
    rw [Session.perform, StateT.run_bind, StateT.run_get, pure_bind]
    cases s.options.parse source with
    | error e => exact h.goes
    | ok e => exact Tracks.goes { h with }
  | eval name target =>
    rw [Session.perform, Session.events, StateT.run_bind, StateT.run_get, pure_bind]
    cases s.expressions.get? name with
    | none => exact h.goes
    | some e => exact h.storeOutcome target (s.options.evaluate_logged h.counted h.context e)
  | exec source target =>
    have hlogged := s.options.exec_logged h.counted h.context source
    exact ⟨hlogged.orderly, (h.extend hlogged).store target hlogged.result⟩
  | reopen => exact Tracks.goes { h with shared := h.context }
  | evalShared name target =>
    rw [Session.perform, Session.events, StateT.run_bind, StateT.run_get, pure_bind]
    cases s.expressions.get? name with
    | none => exact h.goes
    | some e => exact h.storeOutcome target (Registry.evaluate_logged h.counted _ h.shared e)
  | set value target =>
    refine h.buildingLast (Recipe.build_logged h.counted h.slots value) fun v r hr hv => ?_
    refine hr.store target fun w hw => ?_
    cases hw
    exact hv
  | call slot args target =>
    rw [Session.perform, Session.events, StateT.run_bind, StateT.run_get, pure_bind]
    cases hget : s.slots.get? slot with
    | none => exact h.goes
    | some v =>
      cases v with
      | function f =>
        have hf : f.Recorded made := h.slots.get? hget f (List.mem_singleton_self f)
        have hargs := Recipe.buildItems_logged h.counted h.slots args
        refine h.building (Recipe.buildItems · args) _ hargs fun values r hr hvalues => ?_
        exact hr.storeOutcome target (Registry.call_logged hr.counted (hf.mono (List.prefix_append ..)) hvalues)
      | _ => exact h.goes
  | compare a b =>
    refine h.buildingLast (P := fun _ _ => True) ?_ fun _ r hr _ => hr
    refine (Recipe.build_logged h.counted h.slots a).bind fun v r hr _ => ?_
    have hlater := h.slots.mono (List.prefix_append made (Event.ledger (a.events s.slots s.registry)))
    exact (Recipe.build_logged hr hlater b).map fun _ _ => trivial

end Tracks

/-- All that happens in a session happens in order, and the session keeps nothing that has not been made. -/
theorem History.goes {s : Session} {log : List Event} (h : s.History log) : Goes [] log s := by
  induction h with
  | @start context binds values registry options hcontext hbuild =>
    have hnil : Scope.Recorded [] [] := nofun
    have hlogged : Recipe.Logs [] Scope.Recorded (Recipe.buildEntries [] binds) .empty _ :=
      Recipe.buildEntries_logged rfl hnil binds
    have hcounted := hlogged.counted
    have hresult := hlogged.result
    rw [hbuild] at hcounted hresult
    have hbound : Scope.Recorded ([] ++ Event.ledger (Recipe.entryEvents [] binds .empty))
        (context.bindAll values).entries := by
      refine Scope.Recorded.insertAll ?_ (hresult values rfl)
      rcases hcontext with rfl | ⟨j, hj⟩
      · exact nofun
      · exact (entries_related_only (Context.ofJson_related hj)).2
    refine ⟨hlogged.orderly, ?_⟩
    exact ⟨hcounted, hbound, nofun, nofun, hbound⟩
  | step x _ ih => exact .append ih.orderly (ih.tracks.perform x)

end Session

end RuleLang
