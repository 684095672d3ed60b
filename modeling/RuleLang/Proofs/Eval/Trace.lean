import RuleLang.Proofs.Eval.Settling

/-!
# The nodes under evaluation at one moment

`traceNode` is the evaluator with one addition: it is told which nodes are under evaluation around it, and on entry
to a node it notes them together with the new one. Nodes are left in the reverse order, so what is under evaluation
at any moment has been noted when the innermost of them was entered.

Nodes of one evaluation lie deeper the further inside they are. Only the innermost node of all may have reached the
limit of its evaluation, as whatever has another node inside has passed the check; so the limits bound how many
nodes can be under evaluation.
-/

namespace RuleLang

/-- A node under evaluation: its evaluation, and its depth there. -/
structure Frame where
  evaluation : Nat
  depth : Nat
deriving DecidableEq, Repr

/-- The nodes under evaluation at one moment, innermost first. -/
abbrev Frames := List Frame

/-- The depths of the nodes that belong to one evaluation, innermost first. -/
def Frames.depths (frames : Frames) (i : Nat) : List Nat :=
  (frames.filter (·.evaluation = i)).map Frame.depth

abbrev Traced := ExceptT EvalError (StateT Registry (StateT (List Frames) Option))

/-- Evaluates an expression inside other nodes, and notes the nodes under evaluation whenever one is entered. -/
def traceNode : (fuel : Nat) → (outer : Frames) → (k depth : Nat) → Scope → Expr → Traced Value
  | 0, _, _, _, _, _ => fun _ _ => none
  | fuel + 1, outer, k, depth, scope, e => do
    let frames := ⟨k, depth⟩ :: outer
    modifyThe (List Frames) (· ++ [frames])
    enter (traceNode fuel frames) k depth scope e

/-- Evaluates an expression in the evaluation `k`, from depth zero on. -/
def Traced.evaluate (k : Nat) (scope : Scope) (e : Expr) : Traced Value := do
  let r ← getThe Registry
  traceNode r.fuel [] k 0 scope e

section Frames

variable {es : Evaluations} {frames outer : Frames} {k depth : Nat}

theorem Frames.mem_depths {i d : Nat} : d ∈ frames.depths i ↔ ⟨i, d⟩ ∈ frames := by
  constructor
  · intro h
    obtain ⟨f, hf, rfl⟩ := List.mem_map.1 h
    obtain ⟨hmem, hi⟩ := List.mem_filter.1 hf
    obtain rfl := of_decide_eq_true hi
    exact hmem
  · intro h
    exact List.mem_map.2 ⟨_, List.mem_filter.2 ⟨h, decide_eq_true rfl⟩, rfl⟩

theorem Frames.depths_cons_self : Frames.depths (⟨k, depth⟩ :: outer) k = depth :: outer.depths k := by
  simp [Frames.depths]

theorem Frames.depths_cons_of_ne {i : Nat} (h : k ≠ i) : Frames.depths (⟨k, depth⟩ :: outer) i = outer.depths i := by
  simp [Frames.depths, h]

/-- Nodes of one evaluation lie deeper the further inside they are. -/
def Frames.Deepening (frames : Frames) : Prop :=
  ∀ i, (frames.depths i).Pairwise (· > ·)

/-- Nodes that may be under evaluation at one moment: all but the innermost have passed the check of the limit. -/
structure Frames.Guarded (es : Evaluations) (frames : Frames) : Prop where
  deepening : frames.Deepening
  checked : ∀ f ∈ frames.tail, f.depth < (es.get f.evaluation).limit

/-- Nodes that may have others inside, which go on from the depths that the counters hold. -/
structure Frames.Open (es : Evaluations) (frames : Frames) : Prop where
  deepening : frames.Deepening
  checked : ∀ f ∈ frames, f.depth < (es.get f.evaluation).limit
  counted : ∀ f ∈ frames, f.depth < (es.get f.evaluation).depth

theorem Frames.Guarded.setDepth (h : frames.Guarded (es.setDepth k depth)) : frames.Guarded es where
  deepening := h.deepening
  checked f hf := by
    have hchecked := h.checked f hf
    rwa [Evaluations.limit_get_setDepth] at hchecked

theorem Frames.Open.nil : Frames.Open es [] where
  deepening _ := .nil
  checked := nofun
  counted := nofun

/-- A node that is entered where the counter stands lies deeper than those around it. -/
theorem Frames.Open.lt_depth (h : outer.Open (es.setDepth k depth)) {d : Nat} (hd : ⟨k, d⟩ ∈ outer) : d < depth := by
  have hchecked := h.checked _ hd
  rw [Evaluations.limit_get_setDepth] at hchecked
  have hcounted := h.counted _ hd
  rwa [es.get_setDepth depth (es.lt_length_of_lt_limit hchecked)] at hcounted

theorem Frames.Open.deepening_cons (h : outer.Open (es.setDepth k depth)) :
    Frames.Deepening (⟨k, depth⟩ :: outer) := by
  intro i
  by_cases hi : k = i
  · subst hi
    rw [Frames.depths_cons_self]
    exact .cons (fun d hd => h.lt_depth (Frames.mem_depths.1 hd)) (h.deepening k)
  · rw [Frames.depths_cons_of_ne hi]
    exact h.deepening i

/-- On entry to a node nothing is wrong yet, even if its depth is not. -/
theorem Frames.Open.enter (h : outer.Open (es.setDepth k depth)) : Frames.Guarded es (⟨k, depth⟩ :: outer) where
  deepening := h.deepening_cons
  checked f hf := by
    have hchecked := h.checked f hf
    rwa [Evaluations.limit_get_setDepth] at hchecked

/-- A node that has passed the check may have others inside, one level deeper. -/
theorem Frames.Open.deeper (h : outer.Open (es.setDepth k depth)) (hlimit : depth < (es.get k).limit) :
    Frames.Open (es.setDepth k (depth + 1)) (⟨k, depth⟩ :: outer) where
  deepening := h.deepening_cons
  checked f hf := by
    rw [Evaluations.limit_get_setDepth]
    rcases List.mem_cons.1 hf with rfl | hf
    · exact hlimit
    · exact h.enter.checked f hf
  counted f hf := by
    have hk := es.lt_length_of_lt_limit hlimit
    rcases List.mem_cons.1 hf with rfl | houter
    · rw [es.get_setDepth _ hk]
      exact Nat.lt_succ_self depth
    · by_cases hi : f.evaluation = k
      · subst hi
        rw [es.get_setDepth _ hk]
        exact Nat.lt_succ_of_lt (h.lt_depth houter)
      · have hcounted := h.counted f houter
        rw [es.get_setDepth_of_ne _ _ hi] at hcounted
        rwa [es.get_setDepth_of_ne _ _ hi]

theorem length_le_of_pairwise_gt {l : List Nat} {m : Nat} (h : l.Pairwise (· > ·)) (hm : ∀ d ∈ l, d < m) :
    l.length ≤ m := by
  induction h generalizing m with
  | nil => exact Nat.zero_le m
  | @cons d l hd _ ih => exact Nat.lt_of_le_of_lt (ih hd) (hm d (List.mem_cons_self ..))

/-- No evaluation has more than one node beyond its limit under evaluation. -/
theorem Frames.Guarded.length_depths_le (h : frames.Guarded es) (i : Nat) :
    (frames.depths i).length ≤ (es.get i).limit + 1 := by
  have houter (outer : Frames) (hdeepening : (outer.depths i).Pairwise (· > ·))
      (hchecked : ∀ f ∈ outer, f.depth < (es.get f.evaluation).limit) :
      (outer.depths i).length ≤ (es.get i).limit :=
    length_le_of_pairwise_gt hdeepening fun d hd => hchecked _ (Frames.mem_depths.1 hd)
  have hdeepening := h.deepening i
  cases frames with
  | nil => exact Nat.zero_le _
  | cons f outer =>
    by_cases hi : f.evaluation = i
    · subst hi
      rw [Frames.depths_cons_self] at hdeepening ⊢
      exact Nat.succ_le_succ (houter outer hdeepening.of_cons h.checked)
    · rw [Frames.depths_cons_of_ne hi] at hdeepening ⊢
      exact Nat.le_succ_of_le (houter outer hdeepening h.checked)

end Frames

section Erasure

variable {α β : Type} {R : α → β → Prop} {es : Evaluations}

/--
A traced action does what an action does, if, whatever was noted before, both have an outcome, the outcomes are
related, the counters are put back, and all that is noted is guarded.
-/
def Traces (es : Evaluations) (R : α → β → Prop) (x : Traced α) (y : Run β) : Prop :=
  ∀ n log, ∃ o o' n' noted, x ⟨es, n⟩ log = some ((o, ⟨es, n'⟩), log ++ noted) ∧
    y ⟨es, n⟩ = some (o', ⟨es, n'⟩) ∧ Outcome.Related R o o' ∧ ∀ frames ∈ noted, Frames.Guarded es frames

theorem Traced.bind_ok {x : Traced α} {f : α → Traced β} {r r' : Registry} {log log' : List Frames} {a : α}
    (h : x r log = some ((.ok a, r'), log')) : (x >>= f) r log = f a r' log' := by
  show (x r log >>= _) = _
  rw [h]
  rfl

theorem Traced.bind_error {x : Traced α} {f : α → Traced β} {r r' : Registry} {log log' : List Frames}
    {e : EvalError} (h : x r log = some ((.error e, r'), log')) :
    (x >>= f) r log = some ((.error e, r'), log') := by
  show (x r log >>= _) = _
  rw [h]
  rfl

def Traces.lifting (es : Evaluations) : Lifting Traced Run where
  errors := Eq
  rel := Traces es
  mismatch _ := rfl
  pure h n log := ⟨_, _, n, [], by rw [List.append_nil]; rfl, rfl, .ok h, nofun⟩
  throw he n log := by
    subst he
    exact ⟨_, _, n, [], by rw [List.append_nil]; rfl, rfl, .error _, nofun⟩
  bind := by
    intro _ _ _ _ _ _ x y f g hxy hfg n log
    obtain ⟨o, o', n', noted, hx, hy, ho, hnoted⟩ := hxy n log
    cases ho with
    | error e => exact ⟨_, _, n', noted, Traced.bind_error hx, Run.bind_error hy, .error e, hnoted⟩
    | ok hab =>
      rw [Traced.bind_ok hx, Run.bind_ok hy]
      obtain ⟨o, o', n'', noted', hf, hg, ho, hnoted'⟩ := hfg _ _ hab n' (log ++ noted)
      refine ⟨o, o', n'', noted ++ noted', ?_, hg, ho, fun frames hframes => ?_⟩
      · rw [hf, List.append_assoc]
      · rcases List.mem_append.1 hframes with h | h
        · exact hnoted frames h
        · exact hnoted' frames h

theorem Traced.atDepth_apply {k depth : Nat} {x : Traced α} {r r' : Registry} {log log' : List Frames}
    {o : Except EvalError α} (h : x (r.setDepth k depth) log = some ((o, r'), log')) :
    atDepth k depth x r log = some ((o, r'.setDepth k (r.evaluations.get k).depth), log') := by
  have hobserve : observe x (r.setDepth k depth) log = some ((.ok o, r'), log') := by
    show (x (r.setDepth k depth) log >>= _) >>= _ = _
    rw [h]
    cases o <;> rfl
  show (observe x (r.setDepth k depth) log >>= _) = _
  rw [hobserve]
  cases o <;> rfl

theorem Traces.atDepth {k depth : Nat} {x : Traced α} {y : Run β} (h : Traces (es.setDepth k depth) R x y) :
    Traces es R (RuleLang.atDepth k depth x) (RuleLang.atDepth k depth y) := by
  intro n log
  obtain ⟨o, o', n', noted, hx, hy, ho, hnoted⟩ := h n log
  have hx := Traced.atDepth_apply (r := ⟨es, n⟩) hx
  have hy := Run.atDepth_apply (r := ⟨es, n⟩) hy
  simp only [Registry.setDepth, Evaluations.setDepth_setDepth, Evaluations.setDepth_get] at hx hy
  exact ⟨o, o', n', noted, hx, hy, ho, fun frames hframes => (hnoted frames hframes).setDepth⟩

theorem Traces.read {f : Registry → Traced α} {g : Registry → Run β} (h : ∀ n, Traces es R (f ⟨es, n⟩) (g ⟨es, n⟩)) :
    Traces es R (getThe Registry >>= f) (getThe Registry >>= g) :=
  fun n log => h n n log

theorem Traces.note {frames : Frames} (hframes : frames.Guarded es) {x : Traced α} {y : Run β}
    (h : Traces es R x y) : Traces es R (modifyThe (List Frames) (· ++ [frames]) >>= fun _ => x) y := by
  intro n log
  obtain ⟨o, o', n', noted, hx, hy, ho, hnoted⟩ := h n (log ++ [frames])
  refine ⟨o, o', n', frames :: noted, ?_, hy, ho, fun g hg => ?_⟩
  · rw [List.append_assoc] at hx
    exact hx
  · rcases List.mem_cons.1 hg with rfl | hg
    · exact hframes
    · exact hnoted g hg

theorem Traces.newClosure (k : Nat) (scope : Scope) (param : String) (body : Expr) :
    Traces es (Value.Related Eq) (newClosure k scope param body) (newClosure k scope param body) :=
  fun n _ => ⟨_, _, n + 1, [], by rw [List.append_nil]; rfl, rfl, .ok (.function rfl), nofun⟩

theorem Traces.evaluates {eval : (k depth : Nat) → Scope → Expr → Traced Value}
    {eval' : (k depth : Nat) → Scope → Expr → Run Value}
    (h : ∀ k scope body, Traces es (Value.Related Eq) (eval k (es.get k).depth scope body)
      (eval' k (es.get k).depth scope body)) :
    (Traces.lifting es).Evaluates Eq (fromCounter eval) (fromCounter eval') where
  host h := ⟨h.symm, fun _ => rfl⟩
  closure hf := by
    refine ⟨_, _, _, _, hf.symm, fun a b hab => Traces.read fun _ => ?_⟩
    obtain rfl := hab.eq
    exact h _ _ _

/--
With fuel for all that the limits leave, inside nodes that may have others inside, the traced evaluator does what
the evaluator does, and all that it notes is guarded.
-/
theorem traceNode_traces {fuel fuel' k depth : Nat} {outer : Frames} {scope : Scope} {e : Expr}
    (hopen : outer.Open (es.setDepth k depth)) (hfuel : (es.setDepth k depth).slack < fuel)
    (hfuel' : (es.setDepth k depth).slack < fuel') :
    Traces es (Value.Related Eq) (traceNode fuel outer k depth scope e) (evaluateNode fuel' k depth scope e) := by
  induction fuel generalizing fuel' es k depth outer scope e with
  | zero => cases hfuel
  | succ fuel ih =>
    cases fuel' with
    | zero => cases hfuel'
    | succ fuel' =>
      rw [traceNode, evaluateNode]
      refine Traces.note hopen.enter (Traces.read fun _ => ?_)
      by_cases hlimit : depth < (es.get k).limit
      · have hless := es.slack_setDepth_succ_lt hlimit
        have hdeeper := hopen.deeper hlimit
        simp only [hlimit, ↓reduceIte]
        refine (Traces.lifting es).step_self (fun _ => rfl) (.of_id_eq fun _ _ => congrArg Function.id) ?_ ?_ ?_ ?_
        · exact fun name _ => Entries.get?_related (entries_related_refl (fun _ => rfl) scope) name
        · exact fun x _ => ih hdeeper (by omega) (by omega)
        · intro f g args args' hfg hargs
          refine Traces.atDepth ((Traces.evaluates fun j scope body => ?_).perform hfg hargs)
          refine ih ?_ ?_ ?_
          · rw [Evaluations.setDepth_get]
            exact hdeeper
          · rw [Evaluations.setDepth_get]
            omega
          · rw [Evaluations.setDepth_get]
            omega
        · exact fun param body _ => Traces.newClosure k scope param body
      · simp only [hlimit, ↓reduceIte]
        exact (Traces.lifting es).throw rfl

end Erasure

/--
Every evaluation ends, and more fuel does not change its outcome. At every moment of it, the nodes under evaluation
that belong to one evaluation, the current one or an earlier one, have strictly increasing depths from the outside
in, so there is at most one more of them than the limit of their evaluation.
-/
theorem Run.evaluate_guarded (r : Registry) (k : Nat) (scope : Scope) (e : Expr) :
    ∃ o r' log, (∀ fuel, r.fuel ≤ fuel → evaluateNode fuel k 0 scope e r = some (o, r')) ∧
      Traced.evaluate k scope e r [] = some ((o, r'), log) ∧
      ∀ frames ∈ log, ∀ i, (frames.depths i).Pairwise (· > ·) ∧
        (frames.depths i).length ≤ (r.evaluations.get i).limit + 1 := by
  have htraces (fuel : Nat) (hfuel : r.fuel ≤ fuel) :
      Traces r.evaluations (Value.Related Eq) (traceNode r.fuel [] k 0 scope e) (evaluateNode fuel k 0 scope e) :=
    have hslack := Evaluations.slack_setDepth_lt_fuel r k 0
    traceNode_traces .nil hslack (Nat.lt_of_lt_of_le hslack hfuel)
  obtain ⟨o, _, n, log, htraced, -, -, hlog⟩ := htraces r.fuel (Nat.le_refl _) r.functions []
  rw [List.nil_append] at htraced
  refine ⟨o, ⟨r.evaluations, n⟩, log, fun fuel hfuel => ?_, htraced, fun frames hframes i => ?_⟩
  · obtain ⟨o₁, o₂, n₁, log₁, htraced₁, hrun, ho, -⟩ := htraces fuel hfuel r.functions []
    obtain rfl := ho.eq
    rw [htraced] at htraced₁
    cases htraced₁
    exact hrun
  · have hguarded := hlog frames hframes
    exact ⟨hguarded.deepening i, hguarded.length_depths_le i⟩

/-- A closure that calls itself with itself, at a limit of three: the bound on the nodes is reached. -/
example :
    let again : Expr := .call "f" [.reference "f" []]
    let scope : Scope := [("f", .function (.closure 0 0 "f" again []))]
    ((Traced.evaluate 0 scope again ⟨[⟨3, 0⟩], 1⟩ []).map fun p => p.2.map (Frames.depths · 0)) =
      some [[0], [1, 0], [1, 0], [2, 1, 0], [2, 1, 0], [3, 2, 1, 0]] := by
  cbv

end RuleLang
