import Mathlib
import RuleLang.Proofs.Eval.Outcome
import RuleLang.Proofs.Value.Functions

/-!
# A check of all calls

Whether every call in an expression is that of a builtin with a number of arguments that it admits can be seen without
evaluating it. An expression that passes this check makes only closures whose bodies pass it as well. So in a context
without functions, all functions that there ever are have been checked, and no call fails for what is called or for
the number of its arguments, whoever makes it.
-/

namespace RuleLang

mutual

/-- Whether every call, inside lambdas too, is that of a builtin with a number of arguments that it admits. -/
def Expr.callsFit : Expr → Bool
  | .number _ | .string _ => true
  | .reference _ segments => Expr.callsFitInSegments segments
  | .unary _ operand => operand.callsFit
  | .binary _ left right => left.callsFit && right.callsFit
  | .ternary condition yes no => condition.callsFit && (yes.callsFit && no.callsFit)
  | .call name args =>
    (Builtin.ofName? name).any (·.arity.admits args.length) && Expr.callsFitInArgs args
  | .lambda _ body => body.callsFit

def Expr.callsFitInSegments : List Segment → Bool
  | [] => true
  | .property _ :: segments => Expr.callsFitInSegments segments
  | .index e :: segments => e.callsFit && Expr.callsFitInSegments segments

def Expr.callsFitInArgs : List Expr → Bool
  | [] => true
  | e :: args => e.callsFit && Expr.callsFitInArgs args

end

/-- Closures that pass the check, and so do all functions that they have captured. -/
inductive Function.Checked : Function → Prop
  | closure (id k : Nat) (param : String) {body : Expr} {scope : List (String × Value)} :
      body.callsFit = true → (∀ f ∈ Value.functionsOfEntries scope, Checked f) →
      Checked (.closure id k param body scope)

/-- Whether an evaluation or a call failed at a call, as what is called is no function or does not admit the number
of arguments. -/
def FailsAtCall {α : Type} (o : Except EvalError α) : Prop :=
  ∃ e, o = .error e ∧ (e.kind = .undefinedFunction ∨ e.kind = .arity)

/-- The same error, and not one of a call. -/
def EvalError.BesidesCalls (e e' : EvalError) : Prop :=
  e = e' ∧ e.kind ≠ .undefinedFunction ∧ e.kind ≠ .arity

section Check

variable {e : Expr}

theorem Expr.callsFit_of_index {segments : List Segment} (h : Expr.callsFitInSegments segments = true) {x : Expr}
    (hx : .index x ∈ segments) : x.callsFit = true := by
  induction segments with
  | nil => cases hx
  | cons segment segments ih =>
    cases segment with
    | property name =>
      rw [Expr.callsFitInSegments] at h
      exact ih h ((List.mem_cons.1 hx).resolve_left nofun)
    | index y =>
      rw [Expr.callsFitInSegments, Bool.and_eq_true] at h
      rcases List.mem_cons.1 hx with hxy | hx
      · cases hxy
        exact h.1
      · exact ih h.2 hx

theorem Expr.callsFit_of_arg {args : List Expr} (h : Expr.callsFitInArgs args = true) {x : Expr} (hx : x ∈ args) :
    x.callsFit = true := by
  induction args with
  | nil => cases hx
  | cons y args ih =>
    rw [Expr.callsFitInArgs, Bool.and_eq_true] at h
    rcases List.mem_cons.1 hx with rfl | hx
    · exact h.1
    · exact ih h.2 hx

/-- The parts of an expression that passes the check pass it. -/
theorem Expr.callsFit_of_part (h : e.callsFit = true) {x : Expr} (hx : x ∈ e.parts) : x.callsFit = true := by
  cases e with
  | reference root segments =>
    obtain ⟨segment, hsegment, hindex⟩ := List.mem_filterMap.1 hx
    cases segment with
    | property => cases hindex
    | index y =>
      cases hindex
      exact Expr.callsFit_of_index h hsegment
  | unary op operand =>
    rw [List.mem_singleton.1 hx]
    exact h
  | binary op left right =>
    rw [Expr.callsFit, Bool.and_eq_true] at h
    simp only [Expr.parts, List.mem_cons, List.not_mem_nil, or_false] at hx
    rcases hx with rfl | rfl
    · exact h.1
    · exact h.2
  | ternary condition yes no =>
    rw [Expr.callsFit, Bool.and_eq_true, Bool.and_eq_true] at h
    simp only [Expr.parts, List.mem_cons, List.not_mem_nil, or_false] at hx
    rcases hx with rfl | rfl | rfl
    · exact h.1
    · exact h.2.1
    · exact h.2.2
  | call name args =>
    rw [Expr.callsFit, Bool.and_eq_true] at h
    exact Expr.callsFit_of_arg h.2 hx
  | _ => cases hx

/-- What is called by an expression that passes the check is a builtin that admits the number of arguments. -/
theorem Expr.callee_of_callsFit {name : String} {args : List Expr} (h : (Expr.call name args).callsFit = true) :
    ∃ b : Builtin, (∀ scope, callee scope name = .ok (.inl b)) ∧ b.arity.check b.name args.length = .ok () := by
  rw [Expr.callsFit, Bool.and_eq_true, Option.any_eq_true] at h
  obtain ⟨⟨b, hb, hadmits⟩, -⟩ := h
  refine ⟨b, fun scope => ?_, ?_⟩
  · rw [callee, hb]
  · rw [Arity.check, if_pos hadmits]

/-- Places are alike for an expression that passes the check, if all functions in scope have been checked. -/
def Likeness.checked (first : Nat) : Likeness EvalError.BesidesCalls Eq first 0 where
  function := Function.Only Function.Checked
  place k k' scope scope' e e' :=
    k = k' ∧ scope = scope' ∧ e = e' ∧ e.callsFit = true ∧ ∀ f ∈ Value.functionsOfEntries scope, f.Checked
  mismatch hkind := ⟨rfl, by rw [hkind]; decide, by rw [hkind]; decide⟩
  depthExceeded hkind := ⟨rfl, by rw [hkind]; decide, by rw [hkind]; decide⟩
  faithful := .of_id_eq fun _ _ h => congrArg Function.id h.1
  host h := ⟨_, h.1.symm⟩
  closure := by
    intro id k param body scope g h
    obtain ⟨rfl, hchecked⟩ := h
    cases hchecked with
    | closure _ _ _ hbody hscope =>
      refine ⟨_, _, _, _, _, rfl, fun a b hab => ?_⟩
      obtain ⟨rfl, ha⟩ := hab.only
      exact ⟨rfl, rfl, rfl, hbody, List.forall_mem_append.2 ⟨ha, hscope⟩⟩
  newHost h := nomatch h.2
  newClosure := by
    intro id _ k k' scope scope' param param' body body' h
    obtain ⟨rfl, rfl, he, hbody, hscope⟩ := h
    cases he
    exact ⟨rfl, .closure id k param hbody hscope⟩
  evaluation h := h.1
  corresponds := by
    intro k k' scope scope' e e' h
    obtain ⟨rfl, rfl, rfl, hfit, hscope⟩ := h
    refine .self ?_ ?_ fun x hx => ⟨rfl, rfl, rfl, Expr.callsFit_of_part hfit hx, hscope⟩
    · exact fun root _ _ => Entries.get?_related (entries_related_of_functions hscope) root
    · intro name args he
      subst he
      obtain ⟨b, hcallee, hcheck⟩ := Expr.callee_of_callsFit hfit
      rw [hcallee]
      exact .ok (.builtin fun err herr => nomatch hcheck.symm.trans herr)

/-- No host function is called, so any will do. -/
theorem Hosts.checked_admits (hosts : Hosts) (first : Nat) : (Likeness.checked first).Admits False hosts where
  like h := nomatch h.2
  returnErrors := False.elim

/-- What an outcome is like that has no error of a call and only checked functions in it. -/
theorem not_failsAtCall {o o' : Except EvalError Value}
    (h : Outcome.Like EvalError.BesidesCalls (Value.Related (Function.Only Function.Checked)) o o') :
    ¬FailsAtCall o ∧ ∀ v, o = .ok v → ∀ f ∈ v.functions, f.Checked := by
  obtain ⟨herror, hvalue⟩ := h.only
  refine ⟨fun hfails => ?_, hvalue⟩
  obtain ⟨e, ho, hkind⟩ := hfails
  obtain ⟨_, -, hundefined, harity⟩ := herror e ho
  exact hkind.elim hundefined harity

variable {r : Registry} {o : Except EvalError Value}

/-- An expression that passes the check does not fail at a call and gives checked functions, where the context has
no other ones. -/
theorem Hosts.gives_of_callsFit {hosts : Hosts} {limit : Nat} {c : Context} (he : e.callsFit = true)
    (hc : ∀ f ∈ Value.functionsOfEntries c.entries, f.Checked) (h : hosts.Gives limit c e r o) :
    ¬FailsAtCall o ∧ ∀ v, o = .ok v → ∀ f ∈ v.functions, f.Checked := by
  have hends := gives_endsAlike (hosts.checked_admits r.functions) (.refl (r.started limit).evaluations)
    ⟨rfl, rfl, rfl, he, hc⟩
  obtain ⟨o', -, ho⟩ := (hends.follow h).resolve_left fun hlax => hlax.1
  exact not_failsAtCall ho

/-- A checked function that is called with arguments in which all functions have been checked does not fail at a call
and gives checked functions. -/
theorem Hosts.calls_of_checked {hosts : Hosts} {f : Function} {args : List Value} (hf : f.Checked)
    (hargs : ∀ g ∈ Value.functionsOfItems args, g.Checked) (h : hosts.Calls f args r o) :
    ¬FailsAtCall o ∧ ∀ v, o = .ok v → ∀ g ∈ v.functions, g.Checked := by
  have hends := calls_endsAlike (hosts.checked_admits 0) (.refl r.evaluations) (Nat.zero_le r.functions) ⟨rfl, hf⟩
    (items_related_of_functions hargs)
  obtain ⟨o', -, ho⟩ := (hends.follow h).resolve_left fun hlax => hlax.1
  exact not_failsAtCall ho

end Check

/--
An expression in which every call is that of a builtin with a number of arguments that it admits never fails because
of what is called or of the number of arguments, in any context without functions and under any limit. Nor does a
function that comes out of it, by itself or inside a list or a map, when it is called with arguments without
functions, whenever that is.
-/
theorem Registry.outcome_of_callsFit {e : Expr} (he : e.callsFit = true) {c : Context}
    (hc : Value.functionsOfEntries c.entries = []) (r : Registry) (limit : Nat) :
    ¬FailsAtCall (r.outcome limit c e) ∧
    ∀ v, r.outcome limit c e = .ok v → ∀ f ∈ v.functions, ∀ (r' : Registry) (args : List Value),
      Value.functionsOfItems args = [] → ¬FailsAtCall (r'.callOutcome f args) := by
  have hplain : ∀ f ∈ Value.functionsOfEntries c.entries, f.Checked := by
    rw [hc]
    exact nofun
  obtain ⟨hfails, hvalue⟩ := Hosts.gives_of_callsFit he hplain (Hosts.standard_gives_iff.2 rfl)
  refine ⟨hfails, fun v hv f hf r' args hargs => ?_⟩
  have hnone : ∀ g ∈ Value.functionsOfItems args, g.Checked := by
    rw [hargs]
    exact nofun
  exact (Hosts.calls_of_checked (hvalue v hv f hf) hnone (Hosts.standard_calls_iff.2 rfl)).1

/-- Closures that `map` has got from another closure, in a list, and one of them called without an argument. -/
theorem Registry.outcome_of_callsFit_map :
    let r := Registry.empty
    let r' : Registry := ⟨[⟨256, 0⟩], 2⟩
    let c := Context.empty.bind "items" (.list [.string "a"])
    let body : Expr := .call "trim" [.binary .or (.reference "x" []) (.reference "y" [])]
    let e : Expr := .call "map" [.reference "items" [], .lambda "x" (.lambda "y" body)]
    let f := Function.closure 1 0 "y" body [("x", .string "a"), ("items", .list [.string "a"])]
    (e.callsFit = true ∧ Value.functionsOfEntries c.entries = []) ∧ r.outcome 256 c e = .ok (.list [.function f]) ∧
    ¬FailsAtCall (r.outcome 256 c e) ∧ r'.callOutcome f [] = .ok (.string "true") ∧
    ¬FailsAtCall (r'.callOutcome f []) := by
  intro r r' c body e f
  have hfit : e.callsFit = true := by decide
  have hvalue : r.outcome 256 c e = .ok (.list [.function f]) := by cbv
  obtain ⟨hfails, hcalls⟩ := Registry.outcome_of_callsFit hfit (c := c) rfl r 256
  have hcall : r'.callOutcome f [] = .ok (.string "true") := by
    simp only [f]
    cbv
  exact ⟨⟨hfit, rfl⟩, hvalue, hfails, hcall, hcalls _ hvalue f (List.mem_singleton_self f) r' [] rfl⟩

end RuleLang
