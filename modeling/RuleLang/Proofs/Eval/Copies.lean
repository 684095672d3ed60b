import RuleLang.Proofs.Builtin.Visits
import RuleLang.Proofs.Eval.Capture
import RuleLang.Proofs.Eval.Keeping
import RuleLang.Proofs.Value.Functions

/-!
# Values that are handed on

References, filters and captured names give values that there were before; they make no new ones. What a `map` gives
depends on its function: the identity hands on every item, while a function whose body is a lambda makes a closure for
each of them, one after the other.
-/

namespace RuleLang

section Node

variable {fuel k depth : Nat} {scope : Scope} {e : Expr} {r r' : Registry} {v : Value}

/-- What succeeds has not been too deep. -/
theorem lt_limit_of_ok (h : evaluateNode fuel k depth scope e r = some (.ok v, r')) :
    ∃ fuel', fuel = fuel' + 1 ∧ depth < (r.evaluations.get k).limit := by
  cases fuel with
  | zero => cases h
  | succ fuel =>
    refine ⟨fuel, rfl, ?_⟩
    rw [evaluateNode, enter] at h
    change (ite (depth < (r.evaluations.get k).limit) _ _ : Run Value) r = _ at h
    by_contra hlimit
    rw [if_neg hlimit] at h
    cases h

end Node

section References

variable {fuel k depth : Nat} {scope : Scope} {r r' : Registry} {v w j : Value}

theorem Value.functions_of_property? {name : String} (h : v.property? name = some w) : w.functions ⊆ v.functions := by
  cases v with
  | map entries => exact Value.functions_of_mem_entries (Entries.mem_of_get? h)
  | _ => cases h

theorem Value.functions_of_item? (h : v.item? j = some w) : w.functions ⊆ v.functions := by
  cases v with
  | list items =>
    obtain ⟨i, -, hitem⟩ := Option.bind_eq_some_iff.1 h
    exact Value.functions_of_mem_items (List.mem_of_getElem? hitem)
  | _ => cases h

/-- All functions at the end of a path are among those at its beginning. -/
theorem functions_of_follow {eval : Expr → Run Value} {segments : List Segment}
    (h : follow eval v segments r = some (.ok w, r')) : w.functions ⊆ v.functions := by
  induction segments generalizing v r with
  | nil =>
    cases h
    exact List.Subset.refl _
  | cons segment segments ih =>
    cases segment with
    | property name =>
      rw [follow] at h
      cases hfound : v.property? name with
      | none =>
        rw [hfound] at h
        cases h
        exact List.nil_subset _
      | some u =>
        rw [hfound] at h
        exact List.Subset.trans (ih h) (Value.functions_of_property? hfound)
    | index x =>
      rw [follow] at h
      obtain ⟨j, r'', -, h⟩ := Run.ok_of_bind h
      cases hfound : v.item? j with
      | none =>
        rw [hfound] at h
        cases h
        exact List.nil_subset _
      | some u =>
        rw [hfound] at h
        exact List.Subset.trans (ih h) (Value.functions_of_item? hfound)

/-- A reference makes no functions: those of its value are among those of its root. -/
theorem functions_of_reference {root : String} {segments : List Segment}
    (h : evaluateNode fuel k depth scope (.reference root segments) r = some (.ok w, r')) {f : Function}
    (hf : f ∈ w.functions) : ∃ v, scope.lookup root = some v ∧ f ∈ v.functions := by
  obtain ⟨fuel, rfl, hlimit⟩ := lt_limit_of_ok h
  rw [evaluateNode_of_lt hlimit, step] at h
  cases hroot : scope.lookup root with
  | none =>
    rw [hroot] at h
    cases h
    cases hf
  | some v =>
    rw [hroot] at h
    exact ⟨v, rfl, functions_of_follow h hf⟩

theorem evaluateNode_name {name : String} (hlimit : depth < (r.evaluations.get k).limit)
    (h : scope.lookup name = some v) :
    evaluateNode (fuel + 1) k depth scope (.reference name []) r = some (.ok v, r) := by
  rw [evaluateNode_of_lt hlimit, step, h]
  rfl

/-- An index gives the item at its place. -/
theorem evaluateNode_item {name : String} {index : Expr}
    (hindex : evaluateNode fuel k (depth + 1) scope index r = some (.ok j, r')) (h : scope.lookup name = some v)
    (hitem : v.item? j = some w) :
    evaluateNode (fuel + 1) k depth scope (.reference name [.index index]) r = some (.ok w, r') := by
  obtain ⟨_, -, hlimit⟩ := lt_limit_of_ok hindex
  rw [evaluateNode_of_lt (Nat.lt_of_succ_lt hlimit), step, h]
  show follow (m := Run) _ v [.index index] r = _
  rw [follow, Run.bind_ok hindex, hitem]
  rfl

/-- A closure that gives back what it has captured under a name, whatever it is called with. -/
theorem call_captured {id : Nat} {param name : String}
    (hlimit : (r.evaluations.get k).depth < (r.evaluations.get k).limit) (hname : param ≠ name)
    (h : scope.lookup name = some v) (args : List Value) :
    Function.call (fromCounter (evaluateNode (fuel + 1))) (.closure id k param (.reference name []) scope) args r =
      some (.ok v, r) := by
  rw [Function.call]
  refine evaluateNode_name hlimit ?_
  rw [Scope.lookup, Scope.bind, Entries.get?, if_neg hname]
  exact h

end References

section Visits

variable {fuel k depth : Nat} {scope : Scope} {e : Expr} {r r' : Registry} {u v w : Value}

/-- What a call does once its arguments have been evaluated. -/
theorem evaluateNode_call {name : String} {args : List Expr} {f : Builtin ⊕ Function} {vs : List Value}
    (hlimit : depth < (r.evaluations.get k).limit) (hf : callee scope name = .ok f)
    (hargs : args.mapM (evaluateNode fuel k (depth + 1) scope) r = some (.ok vs, r')) :
    evaluateNode (fuel + 1) k depth scope (.call name args) r =
      atDepth k (depth + 1) (perform (fromCounter (evaluateNode fuel)) f vs) r' := by
  rw [evaluateNode_of_lt hlimit, step, hf]
  show (args.mapM (evaluateNode fuel k (depth + 1) scope) >>= _) r = _
  rw [Run.bind_ok hargs]

/-- Runs that each make `c` functions and whose results depend on how many there were before. -/
theorem mapM_counting {α : Type} {f : α → Run Value} {es : Evaluations} {c : Nat} {out : Nat → α → Value}
    (hf : ∀ a n, f a ⟨es, n⟩ = some (.ok (out n a), ⟨es, n + c⟩)) (items : List α) (n : Nat) :
    items.mapM f ⟨es, n⟩ =
      some (.ok (items.mapIdx fun i a => out (n + c * i) a), ⟨es, n + c * items.length⟩) := by
  induction items generalizing n with
  | nil => rfl
  | cons a items ih =>
    rw [List.mapM_cons, Run.bind_ok (hf a n), Run.bind_ok (ih (n + c))]
    have hnumber (i : Nat) : n + c + c * i = n + c * (i + 1) := by
      rw [Nat.mul_add, Nat.mul_one]
      omega
    simp only [hnumber, List.mapIdx_cons, List.length_cons, Nat.mul_zero, Nat.add_zero]
    rfl

/-- A `map` whose function always succeeds and makes `c` functions each time. -/
theorem map_counting {call : Caller Run} {es : Evaluations} {f : Function} {c : Nat} {out : Nat → Value → Value}
    (hf : ∀ item n, call f [item] ⟨es, n⟩ = some (.ok (out n item), ⟨es, n + c⟩)) (v : Value) (n : Nat) :
    Builtin.map.call call [v, .function f] ⟨es, n⟩ =
      some (.ok (.list ((Builtin.listAt [v] 0).mapIdx fun i item => out (n + c * i) item)),
        ⟨es, n + c * (Builtin.listAt [v] 0).length⟩) := by
  rw [Builtin.call_of_visits rfl]
  show ((Builtin.listAt [v] 0).mapM (fun item => call f [item]) >>= fun vs => return .list vs : Run Value) _ = _
  rw [Run.bind_ok (mapM_counting hf _ n)]
  rfl

theorem filterAuxM_sublist {α : Type} {test : α → Run Bool} {items kept out : List α}
    (h : List.filterAuxM test items kept r = some (.ok out, r')) :
    ∃ added : List α, out = added.reverse ++ kept ∧ added.Sublist items := by
  induction items generalizing kept r with
  | nil =>
    cases h
    exact ⟨[], rfl, List.Sublist.refl _⟩
  | cons a items ih =>
    obtain ⟨b, r'', -, h⟩ := Run.ok_of_bind h
    obtain ⟨added, rfl, hadded⟩ := ih h
    cases b with
    | false => exact ⟨added, rfl, hadded.cons a⟩
    | true => exact ⟨a :: added, by simp, hadded.cons_cons a⟩

/-- A `filter` that succeeds gives items of its list, in their order. -/
theorem filter_sublist {call : Caller Run}
    (h : Builtin.filter.call call [v, w] r = some (.ok u, r')) :
    ∃ kept, u = .list kept ∧ kept.Sublist (Builtin.listAt [v] 0) := by
  rw [Builtin.call_of_visits rfl] at h
  obtain ⟨f, r₁, -, h⟩ := Run.ok_of_bind h
  obtain ⟨kept, r₂, hfilter, h⟩ := Run.ok_of_bind h
  obtain ⟨out, r₃, hout, hreverse⟩ := Run.ok_of_bind hfilter
  obtain ⟨added, rfl, hadded⟩ := filterAuxM_sublist hout
  cases hreverse
  cases h
  refine ⟨_, rfl, ?_⟩
  rw [List.append_nil, List.reverse_reverse]
  exact hadded

/-- The arguments of a visit are its list, whatever that is, and a new closure. -/
theorem mapM_list_lambda {param : String} {body : Expr}
    (he : evaluateNode fuel k depth scope e r = some (.ok v, r')) :
    [e, .lambda param body].mapM (evaluateNode fuel k depth scope) r =
      some (.ok [v, .function (.closure r'.functions k param body scope)],
        ⟨r.evaluations, r'.functions + 1⟩) := by
  have hrestored := evaluateNode_restores _ _ _ _ _ _ _ _ he
  obtain ⟨fuel, rfl, hlimit⟩ := lt_limit_of_ok he
  rw [← hrestored] at hlimit ⊢
  have hlambda : [.lambda param body].mapM (evaluateNode (fuel + 1) k depth scope) r' =
      some (.ok [.function (.closure r'.functions k param body scope)], ⟨r'.evaluations, r'.functions + 1⟩) := by
    rw [List.mapM_cons, Run.bind_ok (evaluateNode_lambda hlimit)]
    rfl
  rw [List.mapM_cons, Run.bind_ok he, Run.bind_ok hlambda]
  rfl

/-- A closure that is called by a builtin evaluates its body one level below the call. -/
theorem caller_closure {es : Evaluations} (hk : k < es.length) (id n : Nat) (param : String) (body : Expr)
    (item : Value) :
    Function.call (fromCounter (evaluateNode fuel)) (.closure id k param body scope) [item] ⟨es.setDepth k depth, n⟩ =
      evaluateNode fuel k depth (scope.bind param item) body ⟨es.setDepth k depth, n⟩ := by
  have hdepth : ((es.setDepth k depth).get k).depth = depth := by
    rw [es.get_setDepth depth hk]
  rw [Function.call]
  show evaluateNode fuel k ((es.setDepth k depth).get k).depth _ body _ = _
  rw [hdepth]
  rfl

/--
The items for which a `map` evaluates a body that always succeeds and makes `c` functions. The body may give something
that depends on how many functions there were before.
-/
theorem evaluateNode_map {param : String} {body : Expr} {c : Nat} {out : Nat → Value → Value}
    (he : evaluateNode fuel k (depth + 1) scope e r = some (.ok v, r'))
    (hbody : ∀ item n, evaluateNode fuel k (depth + 1) (scope.bind param item) body
      ⟨r.evaluations.setDepth k (depth + 1), n⟩ =
        some (.ok (out n item), ⟨r.evaluations.setDepth k (depth + 1), n + c⟩)) :
    evaluateNode (fuel + 1) k depth scope (.call "map" [e, .lambda param body]) r =
      some (.ok (.list ((Builtin.listAt [v] 0).mapIdx fun i item => out (r'.functions + 1 + c * i) item)),
        ⟨r.evaluations, r'.functions + 1 + c * (Builtin.listAt [v] 0).length⟩) := by
  obtain ⟨_, -, hlimit⟩ := lt_limit_of_ok he
  have hk := r.evaluations.lt_length_of_lt_limit hlimit
  rw [evaluateNode_call (Nat.lt_of_succ_lt hlimit) rfl (mapM_list_lambda he)]
  have hmap := map_counting (fun item n => (caller_closure hk r'.functions n param body item).trans (hbody item n))
    v (r'.functions + 1)
  rw [Run.atDepth_apply hmap]
  simp only [Registry.setDepth, Evaluations.setDepth_setDepth, Evaluations.setDepth_get]

/-- The identity hands on every item. -/
theorem evaluateNode_map_identity (param : String) (he : evaluateNode fuel k (depth + 1) scope e r = some (.ok v, r')) :
    evaluateNode (fuel + 1) k depth scope (.call "map" [e, .lambda param (.reference param [])]) r =
      some (.ok (.list (Builtin.listAt [v] 0)), ⟨r.evaluations, r'.functions + 1⟩) := by
  obtain ⟨fuel, rfl, hlimit⟩ := lt_limit_of_ok he
  have hbody (item : Value) (n : Nat) :
      evaluateNode (fuel + 1) k (depth + 1) (scope.bind param item) (.reference param [])
        ⟨r.evaluations.setDepth k (depth + 1), n⟩ =
          some (.ok item, ⟨r.evaluations.setDepth k (depth + 1), n + 0⟩) := by
    refine evaluateNode_name ?_ (if_pos rfl)
    rw [Evaluations.limit_get_setDepth]
    exact hlimit
  have hmap := evaluateNode_map he hbody
  have hitems : (Builtin.listAt [v] 0).mapIdx (fun _ item => item) = Builtin.listAt [v] 0 :=
    List.ext_getElem (by simp) (by simp)
  rw [hitems, Nat.zero_mul] at hmap
  exact hmap

/-- A lambda in the body makes a function for each item, one after the other. -/
theorem evaluateNode_map_lambda (param inner : String) (body : Expr)
    (he : evaluateNode fuel k (depth + 1) scope e r = some (.ok v, r')) :
    evaluateNode (fuel + 1) k depth scope (.call "map" [e, .lambda param (.lambda inner body)]) r =
      some (.ok (.list ((Builtin.listAt [v] 0).mapIdx fun i item =>
          .function (.closure (r'.functions + 1 + i) k inner body (scope.bind param item)))),
        ⟨r.evaluations, r'.functions + 1 + (Builtin.listAt [v] 0).length⟩) := by
  obtain ⟨fuel, rfl, hlimit⟩ := lt_limit_of_ok he
  have hbody (item : Value) (n : Nat) :
      evaluateNode (fuel + 1) k (depth + 1) (scope.bind param item) (.lambda inner body)
        ⟨r.evaluations.setDepth k (depth + 1), n⟩ =
          some (.ok (.function (.closure n k inner body (scope.bind param item))),
            ⟨r.evaluations.setDepth k (depth + 1), n + 1⟩) := by
    refine evaluateNode_lambda ?_
    rw [Evaluations.limit_get_setDepth]
    exact hlimit
  have hmap := evaluateNode_map he hbody
  simp only [Nat.one_mul] at hmap
  exact hmap

/-- A `filter` gives items of its list, in their order. -/
theorem sublist_of_evaluateNode_filter {x : Expr}
    (h : evaluateNode (fuel + 1) k depth scope (.call "filter" [e, x]) r = some (.ok w, r')) :
    ∃ v r₁, evaluateNode fuel k (depth + 1) scope e r = some (.ok v, r₁) ∧
      ∃ kept, w = .list kept ∧ kept.Sublist (Builtin.listAt [v] 0) := by
  obtain ⟨_, _, hlimit⟩ := lt_limit_of_ok h
  rw [evaluateNode_of_lt hlimit] at h
  obtain ⟨f, r₀, hf, h⟩ := Run.ok_of_bind h
  cases hf
  obtain ⟨vs, r₂, hargs, h⟩ := Run.ok_of_bind h
  rw [List.mapM_cons] at hargs
  obtain ⟨v, r₁, hv, hargs⟩ := Run.ok_of_bind hargs
  obtain ⟨us, r₃, hx, hargs⟩ := Run.ok_of_bind hargs
  rw [List.mapM_cons] at hx
  obtain ⟨u, r₄, -, hx⟩ := Run.ok_of_bind hx
  cases hx
  cases hargs
  obtain ⟨r₅, hfilter, -⟩ := Run.atDepth_eq_some h
  exact ⟨v, r₁, hv, filter_sublist hfilter⟩

end Visits

end RuleLang
