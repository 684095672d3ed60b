import Mathlib
import RuleLang.Proofs.Eval.Outcome
import RuleLang.Proofs.Value.Functions

/-!
# Rule-style expressions

In an expression of rule style every call is that of a builtin, and a lambda stands only where a builtin that visits a
list takes its function. Without functions in the context there are then no functions but those that such a call has
been given, and nothing keeps them after it. The body of a lambda is evaluated at the depth of the call, which is
less deep than the lambda itself. So a limit that is no lower than the tree is high is never passed.
-/

namespace RuleLang

mutual

/-- How many nodes there are on the longest path down from an expression. -/
def Expr.height : Expr → Nat
  | .number _ | .string _ => 1
  | .reference _ segments => Expr.heightOfSegments segments + 1
  | .unary _ operand => operand.height + 1
  | .binary _ left right => max left.height right.height + 1
  | .ternary condition yes no => max condition.height (max yes.height no.height) + 1
  | .call _ args => Expr.heightOfArgs args + 1
  | .lambda _ body => body.height + 1

def Expr.heightOfSegments : List Segment → Nat
  | [] => 0
  | .property _ :: segments => Expr.heightOfSegments segments
  | .index e :: segments => max e.height (Expr.heightOfSegments segments)

def Expr.heightOfArgs : List Expr → Nat
  | [] => 0
  | e :: args => max e.height (Expr.heightOfArgs args)

end

/-- Every call is that of a builtin, and every lambda is the second argument of one that visits a list. -/
inductive Expr.RuleStyle : Expr → Prop
  | number (x : Float) : RuleStyle (.number x)
  | string (s : String) : RuleStyle (.string s)
  | reference (root : String) {segments : List Segment} :
      (∀ x, .index x ∈ segments → RuleStyle x) → RuleStyle (.reference root segments)
  | unary (op : UnaryOp) {x : Expr} : RuleStyle x → RuleStyle (.unary op x)
  | binary (op : BinaryOp) {x y : Expr} : RuleStyle x → RuleStyle y → RuleStyle (.binary op x y)
  | ternary {c x y : Expr} : RuleStyle c → RuleStyle x → RuleStyle y → RuleStyle (.ternary c x y)
  | call {name : String} {b : Builtin} {args : List Expr} :
      Builtin.ofName? name = some b → (∀ x ∈ args, RuleStyle x) → RuleStyle (.call name args)
  | visit {name : String} {b : Builtin} (param : String) {list body : Expr} {rest : List Expr} :
      Builtin.ofName? name = some b → b.visits = true → RuleStyle list → RuleStyle body →
      (∀ x ∈ rest, RuleStyle x) → RuleStyle (.call name (list :: .lambda param body :: rest))

section Height

variable {x : Expr}

theorem Expr.height_pos (e : Expr) : 0 < e.height := by
  cases e <;> simp only [Expr.height] <;> omega

theorem Expr.height_le_of_index {segments : List Segment} (hx : .index x ∈ segments) :
    x.height ≤ Expr.heightOfSegments segments := by
  induction segments with
  | nil => cases hx
  | cons segment segments ih =>
    cases segment with
    | property name =>
      unfold Expr.heightOfSegments
      exact ih ((List.mem_cons.1 hx).resolve_left nofun)
    | index y =>
      unfold Expr.heightOfSegments
      rcases List.mem_cons.1 hx with hxy | hx
      · cases hxy
        exact Nat.le_max_left ..
      · have hle := ih hx
        omega

theorem Expr.height_le_of_arg {args : List Expr} (hx : x ∈ args) : x.height ≤ Expr.heightOfArgs args := by
  induction args with
  | nil => cases hx
  | cons y args ih =>
    unfold Expr.heightOfArgs
    rcases List.mem_cons.1 hx with rfl | hx
    · exact Nat.le_max_left ..
    · have hle := ih hx
      omega

end Height

/-- The same error, and not that of nesting too deep. -/
def EvalError.Shallow (e e' : EvalError) : Prop :=
  e = e' ∧ e.kind ≠ .depthExceeded

/-- Relates no function to any. -/
abbrev Function.Absent : Function → Function → Prop :=
  Function.Only fun _ => False

theorem Function.Absent.faithful : Function.Faithful Function.Absent :=
  .of_id_eq fun _ _ h => congrArg Function.id h.1

/-- The same value, which has no functions in it. -/
abbrev Value.Inert : Value → Value → Prop :=
  Value.Related Function.Absent

/-- The same value, a closure of a lambda. -/
def Value.Closes (k : Nat) (scope : Scope) (param : String) (body : Expr) (v w : Value) : Prop :=
  v = w ∧ ∃ id, v = .function (.closure id k param body scope)

/-- Two runs in the same evaluations, neither of which fails too deep. -/
abbrev Follows.shallow (es : Evaluations) : Lifting Run Run :=
  Follows.lifting (E := EvalError.Shallow) (fun hkind => ⟨rfl, by rw [hkind]; decide⟩) False False 0 0 es es

/-- An action that does not fail too deep in these evaluations. -/
abbrev Run.Shallow {α : Type} (es : Evaluations) (R : α → α → Prop) (x : Run α) : Prop :=
  (Follows.shallow es).rel R x x

section Shallow

theorem arity_shallow (b : Builtin) (given : Nat) (e : EvalError) (h : b.arity.check b.name given = .error e) :
    EvalError.Shallow e e :=
  ⟨rfl, by rw [Builtin.kind_of_check h]; decide⟩

variable {hosts : Hosts} {fuel k depth : Nat} {es : Evaluations} {scope : Scope}

/-- A lambda that is not too deep itself becomes a closure. -/
theorem shallow_lambda (hlimit : depth < (es.get k).limit) (param : String) (body : Expr) :
    Run.Shallow es (Value.Closes k scope param body) (hosts.evaluateNode fuel k depth scope (.lambda param body)) := by
  cases fuel with
  | zero => exact .unfinished False.elim
  | succ fuel =>
    unfold Hosts.evaluateNode
    apply Follows.read
    intro n
    simp only [hlimit, ↓reduceIte]
    exact .of_eq 1 (fun _ => rfl) (fun _ => rfl) fun n _ => .ok ⟨rfl, n, rfl⟩

/-- The arguments of a visit are a value without functions, the closure of the lambda, and whatever else. -/
theorem shallow_arguments {operand : Expr → Run Value} {param : String} {list body : Expr} {rest : List Expr}
    (hlist : Run.Shallow es Value.Inert (operand list))
    (hlambda : Run.Shallow es (Value.Closes k scope param body) (operand (.lambda param body)))
    (hrest : ∀ x ∈ rest, Run.Shallow es Value.Inert (operand x)) :
    Run.Shallow es
      (fun vs ws => vs = ws ∧ ∃ v id us, Value.Inert v v ∧ vs = v :: .function (.closure id k param body scope) :: us)
      ((list :: .lambda param body :: rest).mapM operand) := by
  have htail := (Follows.shallow es).mapM (fun _ _ h => h) (Paired.self hrest)
  simp only [List.mapM_cons, bind_assoc, pure_bind]
  apply (Follows.shallow es).bind hlist
  intro v v' hv
  apply (Follows.shallow es).bind hlambda
  intro f f' hf
  apply (Follows.shallow es).bind htail
  intro us us' hus
  apply (Follows.shallow es).pure
  obtain ⟨rfl, -⟩ := hv.only
  obtain ⟨rfl, id, rfl⟩ := hf
  obtain rfl := hus.1.eq fun _ _ h => h.only.1
  exact ⟨rfl, v, id, us, hv, rfl⟩

/-- A visit calls the closure that it has been given, and no other function. -/
theorem shallow_visit {call : Caller Run} {b : Builtin} (hb : b.visits = true) {f : Function}
    (hf : ∀ v, (∀ g ∈ v.functions, False) → Run.Shallow es Value.Inert (call f [v])) {v : Value}
    (hv : Value.Inert v v) (us : List Value) : Run.Shallow es Value.Inert (b.call call (v :: .function f :: us)) := by
  have hvisit : Builtin.VisitsAlike (Follows.shallow es) call call Value.Inert
      Value.Inert b.name (v :: .function f :: us) (v :: .function f :: us) := by
    constructor
    · apply Outcome.Like.ok
      intro x y hxy
      obtain ⟨rfl, hx⟩ := hxy.only
      exact hf x hx
    · exact Builtin.listAt_related (.cons hv .nil) 0
  apply Builtin.call_lift_of_run (Follows.shallow es) (arity_shallow b _) rfl
  exact Builtin.run_visits_lift hb hvisit

/-- The step of a call that hands a lambda to a builtin. -/
theorem step_visit_shallow {inside : Inside Run} {name param : String} {b : Builtin} {list body : Expr}
    {rest : List Expr} (hb : Builtin.ofName? name = some b)
    (hlist : Run.Shallow es Value.Inert (inside.operand list))
    (hlambda : Run.Shallow es (Value.Closes k scope param body) (inside.operand (.lambda param body)))
    (hrest : ∀ x ∈ rest, Run.Shallow es Value.Inert (inside.operand x))
    (hvisit : ∀ v id us, Value.Inert v v →
      Run.Shallow es Value.Inert (inside.run (.inl b) (v :: .function (.closure id k param body scope) :: us))) :
    Run.Shallow es Value.Inert (step inside scope (.call name (list :: .lambda param body :: rest))) := by
  have hcallee : callee scope name = .ok (.inl b) := by rw [callee, hb]
  rw [step, hcallee]
  apply (Follows.shallow es).bind (R := fun f g => f = .inl b ∧ g = f) ((Follows.shallow es).pure ⟨rfl, rfl⟩)
  intro f g hfg
  obtain ⟨rfl, rfl⟩ := hfg
  apply (Follows.shallow es).bind (shallow_arguments hlist hlambda hrest)
  intro vs ws hvalues
  obtain ⟨rfl, v, id, us, hv, rfl⟩ := hvalues
  exact hvisit v id us hv

/-- One step of an expression of rule style: its parts are lower, and so is the body of a lambda that it hands to a
visit, by two nodes. -/
theorem step_shallow {inside : Inside Run} {e : Expr} (he : e.RuleStyle)
    (hscope : ∀ f ∈ Value.functionsOfEntries scope, False)
    (hpart : ∀ x : Expr, x.RuleStyle → x.height < e.height → Run.Shallow es Value.Inert (inside.operand x))
    (hlambda : ∀ param body, (Expr.lambda param body).height < e.height →
      Run.Shallow es (Value.Closes k scope param body) (inside.operand (.lambda param body)))
    (hrun : ∀ (b : Builtin) args, Paired Value.Inert args args → Run.Shallow es Value.Inert (inside.run (.inl b) args))
    (hvisit : ∀ b : Builtin, b.visits = true → ∀ id param body, body.RuleStyle →
      (Expr.lambda param body).height < e.height → ∀ v us, Value.Inert v v →
        Run.Shallow es Value.Inert (inside.run (.inl b) (v :: .function (.closure id k param body scope) :: us))) :
    Run.Shallow es Value.Inert (step inside scope e) := by
  have hself (h : Expr.Corresponds EvalError.Shallow Function.Absent scope scope
      (fun x x' => (Follows.shallow es).rel Value.Inert (inside.operand x) (inside.operand x')) e e) :
      Run.Shallow es Value.Inert (step inside scope e) := by
    apply (Follows.shallow es).step Function.Absent.faithful h
    · intro f g args args' hfg hargs
      obtain rfl := hargs.eq fun _ _ hv => hv.only.1
      cases hfg with
      | builtin => exact hrun _ _ hargs
      | function hfg => exact hfg.2.elim
    · intro param param' body body' hlambda
      subst hlambda
      cases he
  cases he with
  | number x => exact hself (.number x)
  | string s => exact hself (.string s)
  | @reference root segments hsegments =>
    apply hself
    apply Expr.Corresponds.reference
    · exact Entries.get?_related (entries_related_of_functions hscope) root
    · apply Paired.self
      intro segment hsegment
      cases segment with
      | property name => exact .property name
      | index x =>
        have hle := Expr.height_le_of_index hsegment
        exact .index (hpart x (hsegments x hsegment) (by rw [Expr.height]; omega))
  | unary op hx => exact hself (.unary op (hpart _ hx (by rw [Expr.height]; omega)))
  | binary op hx hy =>
    apply hself
    apply Expr.Corresponds.binary
    · exact hpart _ hx (by rw [Expr.height]; omega)
    · exact hpart _ hy (by rw [Expr.height]; omega)
  | ternary hc hx hy =>
    apply hself
    apply Expr.Corresponds.ternary
    · exact hpart _ hc (by rw [Expr.height]; omega)
    · exact hpart _ hx (by rw [Expr.height]; omega)
    · exact hpart _ hy (by rw [Expr.height]; omega)
  | @call name b args hb hargs =>
    apply hself
    apply Expr.Corresponds.call
    · have hcallee : callee scope name = .ok (.inl b) := by rw [callee, hb]
      rw [hcallee]
      exact .ok (.builtin (arity_shallow b _))
    · apply Paired.self
      intro x hx
      have hle := Expr.height_le_of_arg hx
      exact hpart x (hargs x hx) (by rw [Expr.height]; omega)
  | @visit name b param list body rest hb hvisits hlist hbody hrest =>
    have hlower {x : Expr} (hx : x ∈ list :: .lambda param body :: rest) :
        x.height < (Expr.call name (list :: .lambda param body :: rest)).height := by
      have hle := Expr.height_le_of_arg hx
      rw [Expr.height]
      omega
    have hclosure : (Expr.lambda param body).height < _ := hlower (.tail _ (.head _))
    apply step_visit_shallow hb
    · exact hpart list hlist (hlower (.head _))
    · exact hlambda param body hclosure
    · exact fun x hx => hpart x (hrest x hx) (hlower (.tail _ (.tail _ hx)))
    · exact fun v id us hv => hvisit b hvisits id param body hbody hclosure v us hv

/--
An expression of rule style that is no higher than the levels that are left is not too deep, and its value has no
functions in it, where the scope has none. The induction is on the fuel, as the body of a lambda runs inside the call.
-/
theorem evaluateNode_shallow (hscope : ∀ f ∈ Value.functionsOfEntries scope, False) {e : Expr} (he : e.RuleStyle)
    (hheight : depth + e.height ≤ (es.get k).limit) :
    Run.Shallow es Value.Inert (hosts.evaluateNode fuel k depth scope e) := by
  induction fuel generalizing es depth scope e with
  | zero => exact .unfinished False.elim
  | succ fuel ih =>
    have hpositive := e.height_pos
    have hlimit : depth < (es.get k).limit := by omega
    unfold Hosts.evaluateNode
    apply Follows.read
    intro _
    simp only [hlimit, ↓reduceIte]
    -- the parts are one level deeper, and lower
    have hpart {x : Expr} (hx : x.RuleStyle) (hlower : x.height < e.height) :
        Run.Shallow es Value.Inert (hosts.evaluateNode fuel k (depth + 1) scope x) :=
      ih hscope hx (by omega)
    apply step_shallow he hscope (k := k) (fun x hx hlower => hpart hx hlower)
    · intro param body hlower
      have hdeeper : depth + 1 < (es.get k).limit := by
        have hlambda := (Expr.lambda param body).height_pos
        omega
      exact shallow_lambda hdeeper param body
    · intro b args hargs
      apply Follows.atDepth
      exact Builtin.call_lift (L := Follows.shallow _) (fun hf _ => hf.2.elim) b (arity_shallow b _) hargs
    · intro b hvisits id param body hbody hlower v us hv
      apply Follows.atDepth
      apply shallow_visit hvisits _ hv us
      intro x hx
      -- the body goes on from the depth of the call, one level above the lambda
      rw [Hosts.caller, Hosts.call]
      apply Follows.read
      intro _
      have hcounter := es.get_setDepth (depth + 1) (es.lt_length_of_lt_limit hlimit)
      have hinner : ∀ f ∈ Value.functionsOfEntries (Scope.bind scope param x), False :=
        List.forall_mem_append.2 ⟨hx, hscope⟩
      apply ih hinner hbody
      rw [Expr.height] at hlower
      rw [hcounter]
      show depth + 1 + body.height ≤ (es.get k).limit
      omega

variable {c : Context} {limit : Nat} {e : Expr} {r : Registry} {o : Except EvalError Value}

/-- So a new evaluation does not fail too deep, whatever the host functions are. -/
theorem Hosts.gives_of_ruleStyle (he : e.RuleStyle) (hc : Value.functionsOfEntries c.entries = [])
    (hlimit : e.height ≤ limit) (h : hosts.Gives limit c e r o) :
    ¬TooDeep o ∧ ∀ v, o = .ok v → v.functions = [] := by
  have hscope : ∀ f ∈ Value.functionsOfEntries c.scope, False := by
    unfold Context.scope
    rw [hc]
    exact nofun
  have hheight : 0 + e.height ≤ ((r.started limit).evaluations.get r.evaluations.length).limit := by
    rw [Registry.get_started, Nat.zero_add]
    exact hlimit
  obtain ⟨fuel, r', h⟩ := h
  have hshallow : Run.Shallow (r.started limit).evaluations Value.Inert
      (hosts.evaluateNode fuel r.evaluations.length 0 c.scope e) := evaluateNode_shallow hscope he hheight
  obtain ⟨n, -, -, ⟨hlax, -⟩ | ⟨o', -, ho⟩⟩ := hshallow.ends (Nat.zero_le r.functions) h
  · exact hlax.elim
  · obtain ⟨herror, hvalue⟩ := ho.only
    refine ⟨fun hdeep => ?_, fun v hv => List.eq_nil_iff_forall_not_mem.2 (hvalue v hv)⟩
    obtain ⟨e, he, hkind⟩ := hdeep
    obtain ⟨_, -, hshallow⟩ := herror e he
    exact hshallow hkind

end Shallow

/--
An expression of rule style does not fail too deep under any limit from its height on, in any context without
functions, however long the lists are that it visits. Its value has no functions in it either. No host function is
called, so this holds whatever host functions there are.
-/
theorem Registry.outcome_of_ruleStyle {e : Expr} (he : e.RuleStyle) {c : Context}
    (hc : Value.functionsOfEntries c.entries = []) {limit : Nat} (hlimit : e.height ≤ limit) (r : Registry) :
    (¬TooDeep (r.outcome limit c e) ∧ ∀ v, r.outcome limit c e = .ok v → v.functions = []) ∧
    ∀ (hosts : Hosts) o, hosts.Gives limit c e r o → ¬TooDeep o ∧ ∀ v, o = .ok v → v.functions = [] :=
  ⟨Hosts.gives_of_ruleStyle he hc hlimit (Hosts.standard_gives_iff.2 rfl),
    fun _ _ h => Hosts.gives_of_ruleStyle he hc hlimit h⟩

/-- Visits inside a visit, at the least limit that the height allows. -/
theorem Registry.outcome_of_ruleStyle_filter :
    let c := Context.empty.bind "items" (.list [.string "a", .string "b"])
    let body : Expr := .call "filter" [.reference "items" [], .lambda "y" (.binary .eq (.reference "x" [])
      (.reference "y" []))]
    let e : Expr := .call "map" [.reference "items" [], .lambda "x" body]
    (e.RuleStyle ∧ Value.functionsOfEntries c.entries = [] ∧ e.height = 6) ∧
    Registry.empty.outcome 6 c e = .ok (.list [.list [.string "a"], .list [.string "b"]]) ∧
    ¬TooDeep (Registry.empty.outcome 6 c e) := by
  intro c body e
  have hstyle : e.RuleStyle := by
    have hreference (name : String) : (Expr.reference name []).RuleStyle := .reference name nofun
    have hequal := Expr.RuleStyle.binary .eq (hreference "x") (hreference "y")
    have hrest : ∀ x ∈ ([] : List Expr), x.RuleStyle := nofun
    have hbody : body.RuleStyle := .visit (b := .filter) "y" rfl rfl (hreference "items") hequal hrest
    exact .visit (b := .map) "x" rfl rfl (hreference "items") hbody hrest
  have hheight : e.height = 6 := by rfl
  have hvalue : Registry.empty.outcome 6 c e = .ok (.list [.list [.string "a"], .list [.string "b"]]) := by cbv
  obtain ⟨⟨hdeep, -⟩, -⟩ := Registry.outcome_of_ruleStyle hstyle (c := c) rfl (Nat.le_of_eq hheight) Registry.empty
  exact ⟨⟨hstyle, rfl, hheight⟩, hvalue, hdeep⟩

end RuleLang
