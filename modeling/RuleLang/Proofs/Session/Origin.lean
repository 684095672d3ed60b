import RuleLang.Proofs.Eval.Copies
import RuleLang.Proofs.Session.Events
import RuleLang.Proofs.Session.Storage

/-!
# One origin for every function

Every function in a session has been made at exactly one moment, and two of them are equal if that is the same moment.
What is made is unequal to all functions that there were before, wherever these were. What is handed on, stored or
captured stays the same function.
-/

namespace RuleLang

namespace Session

/-- The functions in what a session keeps. -/
def functions (s : Session) : List Function :=
  Value.functionsOfEntries s.context.entries ++
    s.saved.flatMap (fun entry => Value.functionsOfEntries entry.2.entries) ++
    Value.functionsOfEntries s.slots ++ Value.functionsOfEntries s.shared.scope

/-- Functions that a session keeps, that are seen in the course of events, or that have been captured by such. -/
def Sees (s : Session) (log : List Event) (f : Function) : Prop :=
  ∃ g, f.Within g ∧ (g ∈ s.functions ∨ ∃ event ∈ log, g ∈ event.functions)

/-- What is known of the functions in a session in the course of its events. -/
structure OneOrigin (s : Session) (log : List Event) : Prop where
  /-- No function has been made that is not in the log. -/
  counted : s.registry.functions = (Event.ledger log).length
  /-- A function has been made at exactly one moment. -/
  made_once : ∀ f, s.Sees log f → ∃ i, ∀ j : Nat, (Event.ledger log)[j]? = some f ↔ j = i
  /-- A function is equal to itself, wherever it is met again, and to no other. -/
  equal_iff : ∀ f g, s.Sees log f → s.Sees log g → (Value.Compare (.function f) (.function g) true ↔ f = g)
  /-- Functions are equal if they were made at the same moment. -/
  equal : ∀ (i j : Nat) (f g : Function), (Event.ledger log)[i]? = some f → (Event.ledger log)[j]? = some g →
    Value.Compare (.function f) (.function g) (decide (i = j))
  /-- What is made in a step is unequal to all functions that there were before, whether the step succeeds or not. -/
  fresh : ∀ x before f after, s.events x = before ++ .create f :: after → ∀ g, s.Sees (log ++ before) g →
    Value.Compare (.function f) (.function g) false

variable {s : Session} {made : List Function} {log : List Event} {f : Function}

theorem Tracks.functions_recorded (h : s.Tracks made) (hf : f ∈ s.functions) : f.Recorded made := by
  simp only [functions, List.mem_append, List.mem_flatMap] at hf
  rcases hf with ((hf | ⟨entry, hentry, hf⟩) | hf) | hf
  · exact h.context f hf
  · exact h.saved entry hentry f hf
  · exact h.slots f hf
  · exact h.shared f hf

theorem mem_functions_of_slot {name : String} {v : Value} (h : s.slots.get? name = some v) (hf : f ∈ v.functions) :
    f ∈ s.functions := by
  have hslots := Value.functions_of_mem_entries (Entries.mem_of_get? h) hf
  exact List.mem_append_left _ (List.mem_append_right _ hslots)

/-- Whatever is seen in a session has been made by then. -/
theorem Sees.recorded (horderly : Event.Orderly [] log) (hkept : ∀ g ∈ s.functions, g.Recorded (Event.ledger log))
    (h : s.Sees log f) : f.Recorded (Event.ledger log) := by
  obtain ⟨g, hwithin, hg | ⟨event, hevent, hg⟩⟩ := h
  · exact (hkept g hg).within hwithin
  · exact (horderly.recorded hevent hg).within hwithin

theorem History.oneOrigin (h : s.History log) : s.OneOrigin log := by
  obtain ⟨horderly, htracks⟩ := h.goes
  rw [List.nil_append] at htracks
  have hnumbered : Event.Numbered (Event.ledger log) := horderly.numbered nofun
  have hrecorded (f : Function) (hf : s.Sees log f) : f.Recorded (Event.ledger log) :=
    hf.recorded horderly fun _ => htracks.functions_recorded
  constructor
  · exact htracks.counted
  · intro f hf
    refine ⟨f.id, fun j => ⟨fun hj => (hnumbered j f hj).symm, ?_⟩⟩
    rintro rfl
    exact (hrecorded f hf).getElem?
  · intro f g hf hg
    rw [Function.compare_true_iff]
    constructor
    · exact (hrecorded f hf).eq_of_id_eq (hrecorded g hg)
    · exact congrArg Function.id
  · intro i j f g hf hg
    have hcompare := f.compare g
    rw [hnumbered i f hf, hnumbered j g hg] at hcompare
    exact hcompare
  · intro x before f after hevents g hg
    have hstep := (htracks.perform x).orderly
    rw [hevents] at hstep
    obtain ⟨hbefore, hcreate⟩ := hstep.of_append
    have hnext := (Event.orderly_cons_iff.1 hcreate).1.1
    rw [← Event.ledger_append] at hnext
    have hseen : g.Recorded (Event.ledger (log ++ before)) := by
      refine hg.recorded (horderly.append hbefore) fun g' hg' => (htracks.functions_recorded hg').mono ?_
      rw [Event.ledger_append]
      exact List.prefix_append ..
    have hlt := hseen.id_lt
    exact Function.compare_of_ne (by omega)

end Session

/-- The functions that a `map` gives whose function makes one for each item. -/
theorem evaluateNode_map_unequal {fuel k depth : Nat} {scope : Scope} {e : Expr} {r r' : Registry} {v : Value}
    (he : evaluateNode fuel k (depth + 1) scope e r = some (.ok v, r')) (param inner : String) (body : Expr) :
    ∃ fs : List Function,
      evaluateNode (fuel + 1) k depth scope (.call "map" [e, .lambda param (.lambda inner body)]) r =
        some (.ok (.list (fs.map .function)), ⟨r.evaluations, r'.functions + 1 + fs.length⟩) ∧
      fs.length = (Builtin.listAt [v] 0).length ∧
      fs.Pairwise fun f g => Value.Compare (.function f) (.function g) false := by
  refine ⟨(Builtin.listAt [v] 0).mapIdx fun i item =>
    .closure (r'.functions + 1 + i) k inner body (scope.bind param item), ?_, List.length_mapIdx, ?_⟩
  · have hvalues : ((Builtin.listAt [v] 0).mapIdx fun i item =>
        Function.closure (r'.functions + 1 + i) k inner body (scope.bind param item)).map Value.function =
          (Builtin.listAt [v] 0).mapIdx fun i item =>
            Value.function (.closure (r'.functions + 1 + i) k inner body (scope.bind param item)) :=
      List.ext_getElem (by simp) (by simp)
    rw [evaluateNode_map_lambda param inner body he, hvalues, List.length_mapIdx]
  · rw [List.pairwise_iff_getElem]
    intro i j hi hj hlt
    rw [List.getElem_mapIdx, List.getElem_mapIdx]
    apply Function.compare_of_ne
    show r'.functions + 1 + i ≠ r'.functions + 1 + j
    omega

/-- What the evaluation of references and visits does with the values that there are. -/
structure HandsOn (fuel k depth : Nat) (scope : Scope) : Prop where
  /-- A reference makes no functions, whatever its path. -/
  reference : ∀ {root segments r w r'},
    evaluateNode fuel k depth scope (.reference root segments) r = some (.ok w, r') →
    ∀ f ∈ w.functions, ∃ v, scope.lookup root = some v ∧ f ∈ v.functions
  /-- A name gives the value that it is bound to. -/
  name : ∀ {name v} {r : Registry}, depth < (r.evaluations.get k).limit → scope.lookup name = some v →
    evaluateNode (fuel + 1) k depth scope (.reference name []) r = some (.ok v, r)
  /-- An index gives an item of the list. -/
  item : ∀ {name index r j r' v w}, evaluateNode fuel k (depth + 1) scope index r = some (.ok j, r') →
    scope.lookup name = some v → v.item? j = some w →
    evaluateNode (fuel + 1) k depth scope (.reference name [.index index]) r = some (.ok w, r')
  /-- A filter gives some of the items of its list. -/
  filter : ∀ {e x r w r'}, evaluateNode (fuel + 1) k depth scope (.call "filter" [e, x]) r = some (.ok w, r') →
    ∃ v r₁, evaluateNode fuel k (depth + 1) scope e r = some (.ok v, r₁) ∧
      ∃ kept, w = .list kept ∧ kept.Sublist (Builtin.listAt [v] 0)
  /-- The identity gives all of them. -/
  identity : ∀ {e r v r'} (param : String), evaluateNode fuel k (depth + 1) scope e r = some (.ok v, r') →
    evaluateNode (fuel + 1) k depth scope (.call "map" [e, .lambda param (.reference param [])]) r =
      some (.ok (.list (Builtin.listAt [v] 0)), ⟨r.evaluations, r'.functions + 1⟩)
  /-- A closure has what it captured whenever it is called. -/
  captured : ∀ {id param name v} {r : Registry}, (r.evaluations.get k).depth < (r.evaluations.get k).limit →
    param ≠ name → scope.lookup name = some v → ∀ args,
    Function.call (fromCounter (evaluateNode (fuel + 1))) (.closure id k param (.reference name []) scope) args r =
      some (.ok v, r)

theorem handsOn (fuel k depth : Nat) (scope : Scope) : HandsOn fuel k depth scope where
  reference h _ hf := functions_of_reference h hf
  name := evaluateNode_name
  item := evaluateNode_item
  filter := sublist_of_evaluateNode_filter
  identity := evaluateNode_map_identity
  captured := call_captured

/-- What a session does with the values that it keeps, however many steps later. -/
structure Session.HandsOn (s : Session) : Prop where
  bind : ∀ {name value v r steps}, (Recipe.build s.slots value).run.run s.registry = (.ok v, r) →
    (∀ y ∈ steps, ¬y.Rebinds name) → (s.after (.bind name value :: steps)).context.get? name = some v
  context : ∀ {name steps}, (∀ y ∈ steps, ¬y.Rebinds name) →
    (s.after steps).context.get? name = s.context.get? name
  restore : ∀ {name steps}, Step.save name ∉ steps →
    (s.after (.save name :: steps ++ [.restore name])).context = s.context
  slot : ∀ {name x v steps}, x.target? = some name → ((perform x).run s).1 = .value v →
    (∀ y ∈ steps, y.target? ≠ some name) →
    ∀ r, (Recipe.build (s.after (x :: steps)).slots (.slot name)).run.run r = (.ok v, r)

theorem Session.handsOn (s : Session) : s.HandsOn where
  bind := context_after_bind
  context h := context_after h s
  restore h := restore_after_save h s
  slot := slot_after_value

/--
Functions are equal, by either operator, if they have one origin. In every session that can be brought about, whatever
failed in it, a function was made at exactly one moment, and functions are equal if that is the same moment for both. A
lambda that is evaluated makes a function that is unequal to all there were before: those that the session keeps, in
any context, slot or scope, those seen by evaluations that have ended or are under way, and those captured by any of
these. So a `map` whose function evaluates a lambda gives functions that are pairwise unequal. References, filters,
the identity, closures, contexts and slots hand on the same functions. Evaluations and calls that are recorded are
those of the engine.
-/
theorem Session.functions_equal_iff_one_origin :
    (∀ s : Session, s.Reachable ↔ ∃ log, s.History log) ∧
    (∀ (s : Session) log, s.History log → s.OneOrigin log) ∧
    (∀ k scope e r, Recording.evaluate k scope e r =
      some ((Registry.evaluate k scope e).run r, (Recording.evaluate k scope e).events r)) ∧
    (∀ f args r, Recording.call f args r =
      some ((Registry.call f args).run r, (Recording.call f args).events r)) ∧
    (∀ fuel k depth scope param body (r : Registry), depth < (r.evaluations.get k).limit →
      let f := Function.closure r.functions k param body scope
      recordNode (fuel + 1) k depth scope (.lambda param body) r =
        some ((.ok (.function f), ⟨r.evaluations, r.functions + 1⟩),
          [.enter scope, .create f, .leave (.function f)])) ∧
    (∀ fuel k depth scope e r v r', evaluateNode fuel k (depth + 1) scope e r = some (.ok v, r') →
      ∀ param inner body, ∃ fs : List Function,
        evaluateNode (fuel + 1) k depth scope (.call "map" [e, .lambda param (.lambda inner body)]) r =
          some (.ok (.list (fs.map .function)), ⟨r.evaluations, r'.functions + 1 + fs.length⟩) ∧
        fs.length = (Builtin.listAt [v] 0).length ∧
        fs.Pairwise fun f g => Value.Compare (.function f) (.function g) false) ∧
    (∀ fuel k depth scope, RuleLang.HandsOn fuel k depth scope) ∧
    ∀ s : Session, s.HandsOn := by
  refine ⟨fun _ => reachable_iff_history, fun _ _ => History.oneOrigin, Recording.evaluate_eq, Recording.call_eq,
    ?_, ?_, RuleLang.handsOn, handsOn⟩
  · intro fuel k depth scope param body r hlimit
    exact recordNode_lambda hlimit
  · intro fuel k depth scope e r v r' he param inner body
    exact evaluateNode_map_unequal he param inner body

/-- A lambda that is evaluated twice, and one that is evaluated for each item of a list. -/
theorem Session.functions_equal_iff_one_origin_map :
    let scope : Scope := [("xs", .list [.number 1, .null])]
    let opened := Session.start .empty {} (Context.empty.bindAll scope)
    let s := opened.after [.exec "x=>x" (some "f")]
    let f (id k : Nat) : Function := .closure id k "x" (.reference "x" []) scope
    (∃ log, s.History log) ∧ s.slots.get? "f" = some (.function (f 0 1)) ∧
    Value.Compare (.function (f 0 1)) (.function (f 0 1)) true ∧
    s.events (.exec "x=>x" none) = [.enter scope, .create (f 1 2), .leave (.function (f 1 2))] ∧
    Value.Compare (.function (f 1 2)) (.function (f 0 1)) false ∧
    (s.after [.save "c", .bind "xs" .null, .restore "c"]).context = s.context ∧
    ∃ g h, evaluateNode 2 0 0 scope (.call "map" [.reference "xs" [], .lambda "x" (.lambda "y" (.reference "x" []))])
        s.registry = some (.ok (.list [.function g, .function h]), ⟨s.registry.evaluations, 4⟩) ∧
      Value.Compare (.function g) (.function h) false := by
  intro scope opened s f
  obtain ⟨hreachable, horigin, -, -, -, hmap, hevaluation, hsession⟩ := Session.functions_equal_iff_one_origin
  have hopened : opened.Reachable :=
    @Session.Reachable.start .empty [("xs", .list [.number 1, .null])] _ _ {} (.inl rfl) rfl
  obtain ⟨log, hlog⟩ := (hreachable s).1 (hopened.after _)
  have hregistry : s.registry = ⟨[⟨256, 0⟩, ⟨256, 0⟩], 1⟩ := by decide +kernel
  have hoptions : s.options = {} := by decide +kernel
  have hkept : (s.slots.get? "f", s.context) = (some (.function (f 0 1)), ⟨scope⟩) := by
    dsimp only [s, opened, scope, f]
    cbv
  obtain ⟨hslot, hcontext⟩ := Prod.mk.inj hkept
  have hsees (log : List Event) : s.Sees log (f 0 1) :=
    ⟨f 0 1, .self, .inl (Session.mem_functions_of_slot hslot (List.mem_singleton_self _))⟩
  have hevents : s.events (.exec "x=>x" none) = [.enter scope, .create (f 1 2), .leave (.function (f 1 2))] := by
    have hparse : ({} : Options).parse "x=>x" = .ok (.lambda "x" (.reference "x" [])) := by cbv
    show s.options.execEvents "x=>x" s.context s.registry = _
    rw [hoptions, hcontext, hregistry, Options.execEvents, hparse]
    exact Options.evaluateEvents_lambda (by decide) _ _ _ _
  refine ⟨⟨log, hlog⟩, hslot, ?_, hevents, ?_, ?_, ?_⟩
  · exact ((horigin s log hlog).equal_iff _ _ (hsees log) (hsees log)).2 rfl
  · exact (horigin s log hlog).fresh _ [.enter scope] (f 1 2) [.leave (.function (f 1 2))] hevents _ (hsees _)
  · have hrestored : (s.after (.save "c" :: [.bind "xs" .null] ++ [.restore "c"])).context = s.context :=
      (hsession s).restore (by simp)
    exact hrestored
  · have hxs : evaluateNode 1 0 1 scope (.reference "xs" []) s.registry =
        some (.ok (.list [.number 1, .null]), s.registry) :=
      (hevaluation 0 0 1 scope).name (by rw [hregistry]; decide) rfl
    obtain ⟨fs, hfs, hlength, hpairwise⟩ := hmap 1 0 0 scope _ _ _ _ hxs "x" "y" (.reference "x" [])
    obtain ⟨g, h, rfl⟩ := List.length_eq_two.1 hlength
    have hcount : s.registry.functions + 1 + [g, h].length = 4 := by rw [hregistry]; rfl
    rw [hcount] at hfs
    exact ⟨g, h, hfs, List.rel_of_pairwise_cons hpairwise (List.mem_singleton_self h)⟩

end RuleLang
