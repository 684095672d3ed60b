import Mathlib
import RuleLang.Proofs.Eval.FreeNames

/-!
# What closures capture

A scope grows by one binding in front for every lambda that is entered, and the context at its end stays as it is.
To call a closure is to evaluate its body in the context in which all that it captured was bound, outermost first,
and then its parameter: in the scope as in the context the last binding of a name wins.
-/

namespace RuleLang

/-- The scope inside lambdas whose parameters are bound to values, outermost first. -/
def Context.capture (c : Context) (pairs : List (String × Value)) : Scope :=
  pairs.foldl (fun scope (name, v) => scope.bind name v) c.scope

/-- Values that hold no functions. -/
abbrev Value.Plain (v : Value) : Prop :=
  Value.Related (fun _ _ => False) v v

/-- Names whose values hold no functions. -/
abbrev Scope.Plain (scope : List (String × Value)) : Prop :=
  Paired (Bound (Value.Related fun _ _ => False)) scope scope

/-- An evaluation `k` alone, with the number `n` in another run. -/
def Moved (k n i j : Nat) : Prop :=
  i = k ∧ j = n

/-- The first `n` evaluations, and the evaluation `k` among them once more as a new one. -/
def Replayed (k n i j : Nat) : Prop :=
  Below n i j ∨ Moved k n i j

section Capture

variable {c : Context} {pairs : List (String × Value)}

theorem Context.capture_eq (c : Context) (pairs : List (String × Value)) :
    c.capture pairs = pairs.reverse ++ c.entries := by
  have hfold (scope : Scope) :
      pairs.foldl (fun scope (name, v) => Scope.bind scope name v) scope = pairs.reverse ++ scope := by
    induction pairs generalizing scope with
    | nil => rfl
    | cons pair pairs ih =>
      rw [List.foldl_cons, ih, List.reverse_cons, List.append_assoc]
      rfl
  exact hfold c.scope

theorem Context.capture_related {R : Value → Value → Prop} (hc : Paired (Bound R) c.entries c.entries)
    (hpairs : Paired (Bound R) pairs pairs) : Paired (Bound R) (c.capture pairs) (c.capture pairs) := by
  rw [Context.capture_eq]
  exact hpairs.reverse.append hc

theorem Scope.lookup_bind {scope : Scope} {c : Context} (h : ∀ name, scope.lookup name = c.get? name)
    (param : String) (v : Value) (name : String) :
    (scope.bind param v).lookup name = (c.bind param v).get? name := by
  rw [Context.get?, Context.bind, Entries.get?_insert, Scope.lookup, Scope.bind, Entries.get?]
  exact congrArg (ite (param = name) (some v)) (h name)

/-- A scope and the context in which all its bindings were made show the same values. -/
theorem Context.lookup_capture (c : Context) (pairs : List (String × Value)) (name : String) :
    (c.capture pairs).lookup name = (c.bindAll pairs).get? name := by
  have hfold (scope : Scope) (c : Context) (h : ∀ name, scope.lookup name = c.get? name) (name : String) :
      Scope.lookup (pairs.foldl (fun scope (name, v) => Scope.bind scope name v) scope) name =
        (c.bindAll pairs).get? name := by
    induction pairs generalizing scope c with
    | nil => exact h name
    | cons pair pairs ih => exact ih _ (c.bind pair.1 pair.2) (Scope.lookup_bind h pair.1 pair.2)
  exact hfold c.scope c (fun _ => rfl) name

end Capture

section Calls

variable {lax : Prop} {ρ : Nat → Nat → Prop} {r : Registry} {limit k : Nat}

/-- A new evaluation with the limit of an earlier one has as much room as that. -/
theorem Roomier.replayed (hlimit : (r.evaluations.get k).limit = limit) :
    Roomier True (Replayed k r.evaluations.length) r.evaluations (r.started limit).evaluations where
  limit_le := by
    rintro i j (⟨rfl, hi⟩ | ⟨rfl, rfl⟩)
    · simp only [Registry.started, Evaluations.get_concat_of_ne _ _ (Nat.ne_of_lt hi), Nat.le_refl]
    · simp [hlimit]
  depth_le := by
    rintro i j (⟨rfl, hi⟩ | ⟨rfl, rfl⟩)
    · simp only [Registry.started, Evaluations.get_concat_of_ne _ _ (Nat.ne_of_lt hi), Nat.le_refl]
    · simp
  source := by
    rintro i i' j (⟨rfl, hi⟩ | ⟨rfl, rfl⟩) (⟨rfl, hi'⟩ | ⟨rfl, hj⟩)
    · rfl
    · omega
    · omega
    · rfl
  exact hlax := absurd trivial hlax
  target hlax := absurd trivial hlax

/-- An idle evaluation is as good as a new one with its limit. -/
theorem Roomier.moved (hlimit : (r.evaluations.get k).limit = limit) (hidle : (r.evaluations.get k).depth = 0) :
    Roomier False (Moved k r.evaluations.length) r.evaluations (r.started limit).evaluations := by
  have hrenumbering : Renumbering (Moved k r.evaluations.length) r.evaluations (r.started limit).evaluations := by
    constructor
    · rintro i j ⟨rfl, rfl⟩
      simp [← hlimit, ← hidle]
    · rintro i j i' j' ⟨rfl, rfl⟩ ⟨rfl, rfl⟩
      exact iff_of_true rfl rfl
  exact hrenumbering.roomier

/-- A closure that is called does what its body does in a new evaluation with like limits. -/
theorem Hosts.calls_closure {hosts : Hosts} (hhosts : hosts.Discreet) (herrors : lax → hosts.ReturnErrors)
    (hes : Roomier lax ρ r.evaluations (r.started limit).evaluations) (hk : ρ k r.evaluations.length)
    {id : Nat} {param : String} {body : Expr} {scope : Scope} {c : Context} {args : List Value}
    (hlookup : ∀ name, scope.lookup name = c.get? name) (hscope : Scope.Renumbered ρ scope scope)
    (harg : Value.Renumbered ρ (args.headD .null) (args.headD .null)) :
    EndsLike lax (Value.Alike ρ r.functions) (hosts.Calls (.closure id k param body scope) args r)
      (hosts.Gives limit (c.bind param (args.headD .null)) body r) := by
  have hagree : Scope.Alike ρ r.functions body.freeNames (scope.bind param (args.headD .null))
      (c.bind param (args.headD .null)).scope :=
    .of_agree (.cons (.mk harg) hscope) fun name _ => Scope.lookup_bind hlookup param _ name
  have hexact (hlax : ¬lax) : (r.evaluations.get k).depth = 0 := by
    rw [hes.exact hlax hk, Registry.get_started]
  refine (Follows.endsAlike (fun fuel => ?_) (Nat.le_refl r.functions) fun _ _ => Hosts.Gives.unique).endsLike
  have hbody := Likeness.evaluateNode_follows (A := .alike ρ r.functions) (hhosts.admits herrors) (Nat.le_refl fuel)
    (fun _ : True => rfl) hes ⟨rfl, hk, hagree⟩ (Nat.le_refl _) (Nat.zero_le _) hexact
  -- the call reads the counter of its evaluation first, which does not change how it ends
  exact ⟨hbody.ends, hbody.isSome⟩

/-- How an expression is evaluated that is not too deep. -/
theorem evaluateNode_of_lt {fuel depth : Nat} {scope : Scope} {e : Expr} (h : depth < (r.evaluations.get k).limit) :
    RuleLang.evaluateNode (fuel + 1) k depth scope e r =
      step (m := Run) ⟨RuleLang.evaluateNode fuel k (depth + 1) scope,
        fun f args => atDepth k (depth + 1) (perform (fromCounter (RuleLang.evaluateNode fuel)) f args),
        newClosure k scope⟩ scope e r := by
  rw [RuleLang.evaluateNode, enter]
  show (ite (depth < (r.evaluations.get k).limit) _ _ : Run Value) r = _
  rw [if_pos h]

theorem evaluateNode_lambda {fuel depth : Nat} {param : String} {body : Expr} {scope : Scope}
    (h : depth < (r.evaluations.get k).limit) :
    RuleLang.evaluateNode (fuel + 1) k depth scope (.lambda param body) r =
      some (.ok (.function (.closure r.functions k param body scope)), ⟨r.evaluations, r.functions + 1⟩) := by
  rw [evaluateNode_of_lt h]
  rfl

/-- The evaluation of a lambda makes a closure that has captured nothing but the context. -/
theorem Registry.evaluateNew_lambda (hlimit : 1 ≤ limit) (r : Registry) (c : Context) (param : String) (body : Expr) :
    (Registry.evaluateNew limit c (.lambda param body)).run r =
      (.ok (.function (.closure r.functions r.evaluations.length param body (c.capture []))),
        ⟨(r.started limit).evaluations, r.functions + 1⟩) := by
  refine Registry.run_of_eq_some (r := r.started limit) (Run.evaluate_ends _ _ _) ?_
  show RuleLang.evaluateNode ((r.started limit).evaluations.capacity + 1) _ _ _ _ _ = _
  refine evaluateNode_lambda ?_
  rw [Registry.get_started]
  exact hlimit

/-- A closure whose body is a lambda gives one that has captured its argument as well. -/
theorem Registry.callOutcome_lambda (hlimit : 1 ≤ (r.evaluations.get k).limit)
    (hidle : ∀ e ∈ r.evaluations, e.depth = 0) (id : Nat) (c : Context) (pairs : List (String × Value))
    (param inner : String) (body : Expr) (args : List Value) :
    r.callOutcome (.closure id k param (.lambda inner body) (c.capture pairs)) args =
      .ok (.function (.closure r.functions k inner body (c.capture (pairs ++ [(param, args.headD .null)])))) := by
  have hdepth : (r.evaluations.get k).depth < (r.evaluations.get k).limit := by
    rw [Evaluations.depth_get_of_idle hidle]
    exact hlimit
  have hscope :
      c.capture (pairs ++ [(param, args.headD .null)]) = (c.capture pairs).bind param (args.headD .null) := by
    rw [Context.capture, List.foldl_append]
    rfl
  have hrun : Run.call (.closure id k param (.lambda inner body) (c.capture pairs)) args r =
      some (.ok (.function (.closure r.functions k inner body (c.capture (pairs ++ [(param, args.headD .null)])))),
        ⟨r.evaluations, r.functions + 1⟩) := by
    show (Function.call (fromCounter (RuleLang.evaluateNode r.fuel)) _ args : Run Value) r = _
    rw [Function.call, hscope]
    exact evaluateNode_lambda hdepth
  exact congrArg Prod.fst (Registry.run_of_eq_some (Run.call_ends _ _) hrun)

/--
A lambda that is evaluated makes a closure that belongs to its evaluation and has captured the context. Whatever a
closure has captured, and whenever it is called while no evaluation is under way, its outcome is that of its body in
a new evaluation with the same limit, in the context in which the captured names were bound and then its parameter.
Where there are functions among the values, the closures of the earlier evaluation share its limit with the call,
and those in the new evaluation do not; so the call may fail too deep alone. Without functions it may not.
-/
theorem Registry.callOutcome_capture (limit : Nat) (c : Context) (param : String) (body : Expr) :
    (1 ≤ limit → ∀ r : Registry, ∃ id k r',
      (Registry.evaluateNew limit c (.lambda param body)).run r =
          (.ok (.function (.closure id k param body (c.capture []))), r') ∧
        ∀ r'', r'.Extends r'' → (r''.evaluations.get k).limit = limit) ∧
    ∀ (r : Registry) (id k : Nat) (pairs : List (String × Value)) (args : List Value),
      (∀ e ∈ r.evaluations, e.depth = 0) → (r.evaluations.get k).limit = limit →
      let f := Function.closure id k param body (c.capture pairs)
      let c' := (c.bindAll pairs).bind param (args.headD .null)
      let n := r.evaluations.length
      (Scope.Owned n c.entries → Scope.Owned n pairs → Value.Owned n (args.headD .null) →
        (¬TooDeep (r.callOutcome f args) →
          Outcome.Related (Value.Alike (Replayed k n) r.functions) (r.callOutcome f args) (r.outcome limit c' body)) ∧
        ∀ hosts : Hosts, hosts.Discreet → hosts.ReturnErrors →
          EndsLike True (Value.Alike (Replayed k n) r.functions) (hosts.Calls f args r)
            (hosts.Gives limit c' body r)) ∧
      (Scope.Plain c.entries → Scope.Plain pairs → Value.Plain (args.headD .null) →
        Outcome.Related (Value.Alike (Moved k n) r.functions) (r.callOutcome f args) (r.outcome limit c' body)) := by
  constructor
  · intro hlimit r
    refine ⟨_, _, _, Registry.evaluateNew_lambda hlimit r c param body, ?_⟩
    rintro r'' ⟨fresh, hr'', -⟩
    rw [hr'', Evaluations.get_append_of_lt, Registry.get_started]
    simp [Registry.started]
  intro r id k pairs args hidle hlimit f c' n
  have hlookup := c.lookup_capture pairs
  constructor
  · intro hc hpairs harg
    -- what exists at the call belongs to the first evaluations, which are the same on either side
    have hbelow : ∀ i j, Below n i j → Replayed k n i j := fun _ _ => .inl
    have hscope := Context.capture_related (entries_mono hbelow hc) (entries_mono hbelow hpairs)
    have hends (hosts : Hosts) (hhosts : hosts.Discreet) (herrors : hosts.ReturnErrors) :
        EndsLike True (Value.Alike (Replayed k n) r.functions) (hosts.Calls f args r) (hosts.Gives limit c' body r) :=
      Hosts.calls_closure hhosts (fun _ => herrors) (.replayed hlimit) (.inr ⟨rfl, rfl⟩) hlookup hscope
        (harg.mono hbelow)
    have hstandard := hends _ Hosts.standard_discreet Hosts.standard_returnErrors
    refine ⟨fun hdeep => ?_, hends⟩
    exact (hstandard.outcome Hosts.standard_calls_iff Hosts.standard_gives_iff).resolve_left fun hlax => hdeep hlax.2
  · intro hc hpairs harg
    have hnone : ∀ f, False → Function.Renumbered (Moved k n) f f := fun _ => False.elim
    have hscope := Context.capture_related (entries_diagonal hnone hc) (entries_diagonal hnone hpairs)
    have hes := Roomier.moved hlimit (Evaluations.depth_get_of_idle hidle k)
    have hends : EndsLike False (Value.Alike (Moved k n) r.functions) (Hosts.standard.Calls f args r)
        (Hosts.standard.Gives limit c' body r) :=
      Hosts.calls_closure Hosts.standard_discreet False.elim hes ⟨rfl, rfl⟩ hlookup hscope (harg.diagonal hnone)
    exact (hends.outcome Hosts.standard_calls_iff Hosts.standard_gives_iff).resolve_left fun hlax => hlax.1

/-- A closure that has captured a string calls its argument with it, by way of a host function; and one that has
captured nothing nests too deep, as its body does in the context. -/
theorem Registry.callOutcome_capture_apply :
    let r : Registry := ⟨[⟨3, 0⟩], 2⟩
    let c := Context.empty.bind "apply" (.function (.host 0 .apply))
    let body : Expr := .call "apply" [.reference "f" [], .reference "y" []]
    let f := Function.closure 2 0 "f" body (c.capture [("y", .string "a")])
    let g := Value.function (.closure 1 0 "x" (.reference "x" []) [])
    let deep : Expr := .unary .not (.unary .not (.unary .not (.reference "x" [])))
    (∃ id k r', (Registry.evaluateNew 3 c (.lambda "f" body)).run r =
        (.ok (.function (.closure id k "f" body (c.capture []))), r') ∧
      ∀ r'', r'.Extends r'' → (r''.evaluations.get k).limit = 3) ∧
    Outcome.Related (Value.Alike (Replayed 0 1) 2) (r.callOutcome f [g])
      (r.outcome 3 ((c.bind "y" (.string "a")).bind "f" g) body) ∧
    EndsLike True (Value.Alike (Replayed 0 1) 2) (Hosts.standard.Calls f [g] r)
      (Hosts.standard.Gives 3 ((c.bind "y" (.string "a")).bind "f" g) body r) ∧
    Outcome.Related (Value.Alike (Moved 0 1) 2) (r.callOutcome (.closure 2 0 "x" deep []) [.string "a"])
      (r.outcome 3 (Context.empty.bind "x" (.string "a")) deep) := by
  intro r c body f g deep
  have hcall : r.callOutcome f [g] = .ok (.string "a") := by
    simp only [f]
    cbv
  have hnot : ¬TooDeep (.ok (.string "a") : Except EvalError Value) := not_tooDeep_ok _
  have hidle : ∀ e ∈ r.evaluations, e.depth = 0 := by decide
  have hc : Scope.Owned 1 c.entries := .cons (.mk (.function (.host 0 .apply))) .nil
  have hg : Value.Owned 1 g := .function (.closure 1 "x" _ ⟨rfl, Nat.one_pos⟩ .nil)
  have hy : Scope.Owned 1 [("y", .string "a")] := .cons (.mk (.string "a")) .nil
  have hcapture := Registry.callOutcome_capture 3 c "f" body
  obtain ⟨hengine, hhosts⟩ := (hcapture.2 r 2 0 [("y", .string "a")] [g] hidle rfl).1 hc hy hg
  have hplain := Registry.callOutcome_capture 3 .empty "x" deep
  refine ⟨hcapture.1 (by decide) r, hengine (hcall ▸ hnot), ?_, ?_⟩
  · exact hhosts _ Hosts.standard_discreet Hosts.standard_returnErrors
  · exact (hplain.2 r 2 0 [] [.string "a"] hidle rfl).2 .nil .nil (.string "a")

end Calls

end RuleLang
