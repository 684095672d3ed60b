import RuleLang.Proofs.Builtin.Lifting
import RuleLang.Proofs.Builtin.Search
import RuleLang.Proofs.Eval.Twin

/-!
# Builtins that visit a list

The five builtins that call a function on the items of a list visit them one after the other, and the first error ends
every visit. They differ in what else ends it and in what they collect. If the function has one outcome for each item,
whenever it is called, then all five can be told from the outcomes alone.
-/

namespace RuleLang

section Computes

variable {α β : Type} {S : Registry → Prop} {R : α → β → Prop}

/-- From every state in `S` an action ends in such a state, with an outcome that is like the given one. -/
def Computes (S : Registry → Prop) (R : α → β → Prop) (x : Run α) (o : Except EvalError β) : Prop :=
  ∀ r, S r → ∃ o' r', x r = some (o', r') ∧ S r' ∧ Outcome.Like Eq R o' o

/-- An outcome that is told without running anything is told of all that runs are made of. -/
def Computes.lifting (S : Registry → Prop) : Lifting Run (Except EvalError) where
  errors := Eq
  rel := Computes S
  mismatch _ := rfl
  pure hab r hr := ⟨_, r, rfl, hr, .ok hab⟩
  throw he r hr := ⟨_, r, rfl, hr, .error he⟩
  bind := by
    intro _ _ _ _ _ _ x y f g hxy hfg r hr
    obtain ⟨o, r', hx, hr', ho⟩ := hxy r hr
    cases ho with
    | error he => exact ⟨_, r', Run.bind_error hx, hr', .error he⟩
    | ok hab =>
      rw [Run.bind_ok hx]
      exact hfg _ _ hab r' hr'

end Computes

section Library

variable {r : Registry} {f : Function} {args : List Value}

/-- The library's way to call a function, with the fuel of a registry. -/
abbrev Registry.caller (r : Registry) : Caller Run :=
  Function.call (fromCounter (evaluateNode r.fuel))

/--
A function that there is by now has one outcome for known arguments, whenever it is called while the counters hold
the same: later on, only the functions that it makes have other numbers.
-/
theorem Function.KnownTo.computes (hf : f.KnownTo r) (hargs : ∀ v ∈ args, ∀ g ∈ v.functions, g.KnownTo r) :
    Computes (fun r' => r'.evaluations = r.evaluations ∧ r.functions ≤ r'.functions)
      (fun v w => ∃ shift, Value.Related (Function.Twin r.functions shift) w v)
      (r.caller f args) (r.callOutcome f args) := by
  intro r' hr'
  obtain ⟨hevaluations, hfunctions⟩ := hr'
  obtain ⟨shift, hshift⟩ := Nat.exists_eq_add_of_le hfunctions
  have hr' : r' = ⟨r.evaluations, r.functions + shift⟩ := by
    rw [← hevaluations, ← hshift]
  have hself : Paired (Value.Related (Function.Twin r.functions shift)) args args := .self fun v hv =>
    (Value.related_of_functions fun g hg => (hargs v hv g hg).twin shift).diagonal fun _ hg => hg.2
  have hcall : Follows Eq False False r.functions shift r.evaluations r.evaluations
      (Value.Related (Function.Twin r.functions shift)) (r.caller f args) (r.caller f args) := by
    rw [Registry.caller, ← Hosts.caller_standard _ r.fuel, ← Hosts.evaluateNode_standard]
    exact Likeness.calls_follow ((Hosts.standard_blind r).admits_twin shift) (Nat.le_refl r.fuel) False.elim
      (.refl r.evaluations) (hf.twin shift) hself
  have hends : r.caller f args ⟨r.evaluations, r.functions⟩ = some ((Registry.call f args).run r) :=
    Registry.eq_some_run (Run.call_ends f args) r
  obtain ⟨n, hn, -, ⟨hlax, -⟩ | ⟨o, hlater, ho⟩⟩ := hcall.ends (Nat.le_refl r.functions) hends
  · exact hlax.elim
  · rw [hr']
    refine ⟨o, _, hlater, ⟨rfl, Nat.le_add_right_of_le hn⟩, ?_⟩
    change Outcome.Like Eq _ (r.callOutcome f args) o at ho
    generalize r.callOutcome f args = o' at ho
    cases ho with
    | ok hab => exact .ok ⟨shift, hab⟩
    | error he => exact .error he.symm

end Library

namespace Builtin

section Arguments

variable {m : Type → Type} [Monad m] [LawfulMonad m] [MonadExceptOf EvalError m] {call : Caller m} {b : Builtin}

/-- A visit takes two arguments. -/
theorem call_of_visits (hb : b.visits = true) (v w : Value) : b.call call [v, w] = b.run call [v, w] := by
  have hcheck : b.arity.check b.name [v, w].length = .ok () := by
    cases b <;> first | rfl | cases hb
  unfold Builtin.call
  rw [hcheck]
  exact pure_bind _ _

/-- What is no list reads as the empty list. -/
theorem call_of_not_list (hb : b.visits = true) {v : Value} (hv : ∀ items, v ≠ .list items) (w : Value) :
    b.call call [v, w] = b.call call [.list [], w] := by
  have hitems : listAt [v, w] 0 = listAt [.list [], w] 0 := by
    cases v with
    | list items => exact absurd rfl (hv items)
    | _ => rfl
  have hfunction (name : String) : functionAt name [v, w] 1 = functionAt name [.list [], w] 1 := rfl
  rw [call_of_visits hb, call_of_visits hb]
  cases b with
  | countIf => simp only [run, countAccepted, hitems, hfunction]
  | filter => simp only [run, keepAccepted, hitems, hfunction]
  | some => simp only [run, someAccepted, hitems, hfunction]
  | every => simp only [run, everyAccepted, hitems, hfunction]
  | map => simp only [run, mapItems, hitems, hfunction]
  | _ => cases hb

end Arguments

/-- The function is asked for before the list. -/
theorem call_of_not_function {call : Caller Run} {b : Builtin} (hb : b.visits = true) (v : Value) {w : Value}
    (hw : ∀ f, w ≠ .function f) :
    b.call call [v, w] = throw (.argument b.name .function 1 (Option.some w.kind)) := by
  have hfunction (name : String) :
      functionAt name [v, w] 1 = .error (.argument name .function 1 (Option.some w.kind)) := by
    cases w with
    | function f => exact absurd rfl (hw f)
    | _ => rfl
  rw [call_of_visits hb]
  cases b with
  | countIf => simp only [run, countAccepted, hfunction]; rfl
  | filter => simp only [run, keepAccepted, hfunction]; rfl
  | some => simp only [run, someAccepted, hfunction]; rfl
  | every => simp only [run, everyAccepted, hfunction]; rfl
  | map => simp only [run, mapItems, hfunction]; rfl
  | _ => cases hb

section Foreseen

variable {out : Value → Except EvalError Value} {p : Function} {items : List Value} {builtin : String}

/-- Calls that are told by their first arguments. -/
def foreseen (out : Value → Except EvalError Value) : Caller (Except EvalError) :=
  fun _ args => out (args.headD .null)

/-- What the call on an item says of it. -/
def judge (out : Value → Except EvalError Value) (x : Value) : Except EvalError Bool :=
  (out x).map Value.truthy

theorem accepts_foreseen : accepts (foreseen out) p = judge out := by
  funext x
  unfold accepts judge foreseen
  rw [List.headD_cons]
  cases out x <;> rfl

theorem countAccepted_foreseen : countAccepted (foreseen out) builtin [.list items, .function p] =
    (keep (judge out) items).map fun kept => .number (Float.ofNat kept.length) := by
  show (items.foldlM (fun n x => do return if ← accepts (foreseen out) p x then n + 1 else n) 0).bind _ = _
  rw [accepts_foreseen, foldlM_eq_keep]
  rcases keep (judge out) items with e | kept
  · rfl
  · simp only [Except.map, Nat.zero_add]
    rfl

theorem keepAccepted_foreseen : keepAccepted (foreseen out) builtin [.list items, .function p] =
    (keep (judge out) items).map .list := by
  show (items.filterM (accepts (foreseen out) p)).bind _ = _
  rw [accepts_foreseen, filterM_eq_keep]
  rcases keep (judge out) items with e | kept <;> rfl

theorem someAccepted_foreseen : someAccepted (foreseen out) builtin [.list items, .function p] =
    (seek true (judge out) items).map .boolean := by
  show (items.anyM (accepts (foreseen out) p)).bind _ = _
  rw [accepts_foreseen, anyM_eq_seek]
  rcases seek true (judge out) items with e | b <;> rfl

theorem everyAccepted_foreseen : everyAccepted (foreseen out) builtin [.list items, .function p] =
    (seek false (judge out) items).map .boolean := by
  show (items.allM (accepts (foreseen out) p)).bind _ = _
  rw [accepts_foreseen, allM_eq_seek]
  rcases seek false (judge out) items with e | b <;> rfl

theorem mapItems_foreseen : mapItems (foreseen out) builtin [.list items, .function p] =
    (items.mapM out).map .list := by
  show (items.mapM fun x => foreseen out p [x]).bind _ = _
  unfold foreseen
  simp only [List.headD_cons]
  rcases items.mapM out with e | vs <;> rfl

/-- Lists of results that are related by `R`. -/
inductive Listed (R : Value → Value → Prop) : Value → Value → Prop
  | mk {vs ws : List Value} : Paired R vs ws → Listed R (.list vs) (.list ws)

/-- A search among items for a result `b` of the calls: what it ends with, told from the outcomes of the calls. -/
structure Finds (b : Bool) (out : Value → Except EvalError Value) (items : List Value)
    (found : Except EvalError Value) : Prop where
  boolean : ∀ v, found = .ok v → ∃ c, v = .boolean c
  error_iff : ∀ e, found = .error e ↔ Meets (fun x => judge out x = .ok !b) (fun x => out x = .error e) items
  found_iff : found = .ok (.boolean b) ↔
    Meets (fun x => ∃ v, out x = .ok v) (fun x => judge out x = .ok b) items
  missed_iff : found = .ok (.boolean !b) ↔ ∀ x ∈ items, judge out x = .ok !b

/-- What the five visits of a list end with, told from the outcomes of the calls on its items. -/
structure Agree (out : Value → Except EvalError Value) (items : List Value)
    (filtered counted found held mapped : Except EvalError Value) : Prop where
  filter_error : ∀ e, filtered = .error e ↔ Meets (fun x => ∃ v, out x = .ok v) (fun x => out x = .error e) items
  filter_ok : ∀ v, filtered = .ok v ↔
    (∀ x ∈ items, ∃ w, out x = .ok w) ∧ v = .list (items.filter (passes (judge out)))
  count_error : ∀ e, counted = .error e ↔ filtered = .error e
  count_ok : ∀ v, counted = .ok v ↔ ∃ kept, filtered = .ok (.list kept) ∧ v = .number (Float.ofNat kept.length)
  some_finds : Finds true out items found
  every_finds : Finds false out items held
  map_error : ∀ e, mapped = .error e ↔ Meets (fun x => ∃ v, out x = .ok v) (fun x => out x = .error e) items
  map_ok : ∀ v, mapped = .ok v ↔ ∃ vs, items.map out = vs.map .ok ∧ v = .list vs

theorem judge_eq_error_iff {x : Value} {e : EvalError} : judge out x = .error e ↔ out x = .error e :=
  map_eq_error_iff

theorem judge_returns_iff {x : Value} : (∃ b, judge out x = .ok b) ↔ ∃ v, out x = .ok v := by
  unfold judge
  simp only [map_eq_ok_iff]
  constructor
  · intro h
    obtain ⟨_, v, hv, -⟩ := h
    exact ⟨v, hv⟩
  · intro h
    obtain ⟨v, hv⟩ := h
    exact ⟨_, v, hv, rfl⟩

theorem finds_seek (b : Bool) : Finds b out items ((seek b (judge out) items).map .boolean) := by
  have hok (c : Bool) : (seek b (judge out) items).map Value.boolean = .ok (.boolean c) ↔
      seek b (judge out) items = .ok c := by
    simp [map_eq_ok_iff]
  constructor
  · intro v hv
    obtain ⟨c, -, rfl⟩ := map_eq_ok_iff.1 hv
    exact ⟨c, rfl⟩
  · intro e
    rw [map_eq_error_iff, seek_eq_error_iff]
    exact Meets.congr (fun _ => Iff.rfl) fun _ => judge_eq_error_iff
  · rw [hok, seek_eq_found_iff]
    exact Meets.congr (fun _ => judge_returns_iff) fun _ => Iff.rfl
  · rw [hok, seek_eq_missed_iff]

/-- What the visits make of foreseen calls agrees. -/
theorem agree_foreseen : Agree out items ((keep (judge out) items).map .list)
    ((keep (judge out) items).map fun kept => .number (Float.ofNat kept.length))
    ((seek true (judge out) items).map .boolean) ((seek false (judge out) items).map .boolean)
    ((items.mapM out).map .list) := by
  constructor
  case some_finds => exact finds_seek true
  case every_finds => exact finds_seek false
  case filter_error =>
    intro e
    rw [map_eq_error_iff, keep_eq_error_iff]
    exact Meets.congr (fun _ => judge_returns_iff) fun _ => judge_eq_error_iff
  case filter_ok =>
    intro v
    simp only [map_eq_ok_iff, keep_eq_ok_iff, judge_returns_iff, and_assoc, exists_and_left, exists_eq_left]
    exact and_congr_right fun _ => eq_comm
  case count_error =>
    intro e
    rw [map_eq_error_iff, map_eq_error_iff]
  case count_ok =>
    intro v
    simp only [map_eq_ok_iff, Value.list.injEq, exists_eq_right]
    exact exists_congr fun _ => and_congr_right fun _ => eq_comm
  case map_error =>
    intro e
    rw [map_eq_error_iff, mapM_eq_error_iff]
  case map_ok =>
    intro v
    simp only [map_eq_ok_iff, mapM_eq_ok_iff]
    exact exists_congr fun _ => and_congr_right fun _ => eq_comm

end Foreseen

section Agreement

variable {call : Caller Run} {p : Function} {items : List Value} {out : Value → Except EvalError Value}
  {S : Registry → Prop} {R : Value → Value → Prop}

/-- Where every call on an item has an outcome that is told, the visits do as if all calls were foreseen. -/
theorem visitsAlike_foreseen (hp : ∀ x ∈ items, Computes S R (call p [x]) (out x)) (builtin : String) :
    VisitsAlike (Computes.lifting S) call (foreseen out) (fun v w => v = w ∧ v ∈ items) R builtin
      [.list items, .function p] [.list items, .function p] where
  functions := by
    apply Outcome.Like.ok
    intro v w hvw
    obtain ⟨rfl, hv⟩ := hvw
    exact hp v hv
  items := .self fun _ hv => ⟨rfl, hv⟩

/--
The builtins that visit a list agree with one another. Let a function have one outcome for each item, in all states
of the registry that matter and up to a relation that keeps truth. Then the outcomes of the five visits are told from
those of the calls, an error of which ends each visit that reaches it. What is no list is visited like the empty list,
and what is no function has the wrong type whatever the list is.
-/
theorem visits_agree (hR : ∀ v w, R v w → v.truthy = w.truthy)
    (hp : ∀ x ∈ items, Computes S R (call p [x]) (out x)) :
    (∃ filtered counted found held mapped,
      Agree out items filtered counted found held mapped ∧
      Computes S Eq (Builtin.filter.call call [.list items, .function p]) filtered ∧
      Computes S Eq (Builtin.countIf.call call [.list items, .function p]) counted ∧
      Computes S Eq (Builtin.some.call call [.list items, .function p]) found ∧
      Computes S Eq (Builtin.every.call call [.list items, .function p]) held ∧
      Computes S (Listed R) (Builtin.map.call call [.list items, .function p]) mapped) ∧
    ∀ b : Builtin, b.visits = true → ∀ v w,
      ((∀ items, v ≠ .list items) → b.call call [v, w] = b.call call [.list [], w]) ∧
      ((∀ f, w ≠ .function f) → ∃ e : EvalError, e = .argument b.name .function 1 (Option.some w.kind) ∧
        e.kind = .typeMismatch ∧ b.call call [v, w] = throw e) := by
  have hvisit := visitsAlike_foreseen hp
  constructor
  · refine ⟨_, _, _, _, _, agree_foreseen, ?_, ?_, ?_, ?_, ?_⟩
    · rw [call_of_visits rfl, ← keepAccepted_foreseen]
      exact keepAccepted_lift (hvisit _) hR fun vs ws h => congrArg Value.list (h.eq fun _ _ hvw => hvw.1)
    · rw [call_of_visits rfl, ← countAccepted_foreseen]
      exact countAccepted_lift (hvisit _) hR fun _ => rfl
    · rw [call_of_visits rfl, ← someAccepted_foreseen]
      exact someAccepted_lift (hvisit _) hR fun _ => rfl
    · rw [call_of_visits rfl, ← everyAccepted_foreseen]
      exact everyAccepted_lift (hvisit _) hR fun _ => rfl
    · rw [call_of_visits rfl, ← mapItems_foreseen]
      exact mapItems_lift (hvisit _) fun _ _ => .mk
  · intro b hb v w
    exact ⟨fun hv => call_of_not_list hb hv w, fun hw => ⟨_, rfl, rfl, call_of_not_function hb v hw⟩⟩

/-- Minus on zero, one and null is refused, accepted and an error: a visit ends where it has seen enough. -/
theorem visits_agree_minus :
    let r : Registry := ⟨[⟨256, 0⟩], 1⟩
    let p : Function := .closure 0 0 "x" (.unary .neg (.reference "x" [])) []
    let items : List Value := [.number 0, .number 1, .null]
    let S : Registry → Prop := fun r' => r'.evaluations = r.evaluations ∧ r.functions ≤ r'.functions
    let R : Value → Value → Prop := fun v w => ∃ shift, Value.Related (Function.Twin r.functions shift) w v
    (∀ v w, R v w → v.truthy = w.truthy) ∧
    (∀ x ∈ items, Computes S R (r.caller p [x]) (r.callOutcome p [x])) ∧
    Computes S Eq (Builtin.filter.call r.caller [.list items, .function p]) (.error (.operand .null)) ∧
    Computes S Eq (Builtin.countIf.call r.caller [.list items, .function p]) (.error (.operand .null)) ∧
    Computes S Eq (Builtin.some.call r.caller [.list items, .function p]) (.ok (.boolean true)) ∧
    Computes S Eq (Builtin.every.call r.caller [.list items, .function p]) (.ok (.boolean false)) ∧
    Computes S (Listed R) (Builtin.map.call r.caller [.list items, .function p]) (.error (.operand .null)) ∧
    Builtin.map.call r.caller [.null, .function p] = Builtin.map.call r.caller [.list [], .function p] ∧
    Builtin.map.call r.caller [.null, .null] = throw (.argument "map" .function 1 (Option.some .null)) := by
  have hzero : judge (fun x => Registry.callOutcome ⟨[⟨256, 0⟩], 1⟩
      (.closure 0 0 "x" (.unary .neg (.reference "x" [])) []) [x]) (.number 0) = .ok false := by decide +kernel
  have hone : judge (fun x => Registry.callOutcome ⟨[⟨256, 0⟩], 1⟩
      (.closure 0 0 "x" (.unary .neg (.reference "x" [])) []) [x]) (.number 1) = .ok true := by decide +kernel
  have hthird : judge (fun x => Registry.callOutcome ⟨[⟨256, 0⟩], 1⟩
      (.closure 0 0 "x" (.unary .neg (.reference "x" [])) []) [x]) .null = .error (.operand .null) := by decide +kernel
  intro r p items S R
  have hnull : r.callOutcome p [.null] = .error (.operand .null) := judge_eq_error_iff.1 hthird
  have hR (v w : Value) (h : R v w) : v.truthy = w.truthy := by
    obtain ⟨shift, h⟩ := h
    exact h.truthy_eq.symm
  have hp (x : Value) (hx : x ∈ items) : Computes S R (r.caller p [x]) (r.callOutcome p [x]) := by
    apply Function.KnownTo.computes
    · exact .closure "x" _ (by decide) (by decide) fun _ hf => absurd hf List.not_mem_nil
    · intro v hv g hg
      have hv : v ∈ items := List.mem_singleton.1 hv ▸ hx
      simp only [items, List.mem_cons, List.not_mem_nil, or_false] at hv
      rcases hv with rfl | rfl | rfl <;> exact absurd hg List.not_mem_nil
  obtain ⟨⟨filtered, counted, found, held, mapped, hagree, hfilter, hcount, hsome, hevery, hmap⟩, hshape⟩ :=
    visits_agree hR hp
  -- the first two items are no errors
  have hfront (x : Value) (hx : x ∈ [Value.number 0, .number 1]) : ∃ v, r.callOutcome p [x] = .ok v := by
    simp only [List.mem_cons, List.not_mem_nil, or_false] at hx
    rcases hx with rfl | rfl
    · exact judge_returns_iff.1 ⟨_, hzero⟩
    · exact judge_returns_iff.1 ⟨_, hone⟩
  have hfails : Meets (fun x => ∃ v, r.callOutcome p [x] = .ok v)
      (fun x => r.callOutcome p [x] = .error (.operand .null)) items :=
    ⟨[.number 0, .number 1], .null, [], rfl, hfront, hnull⟩
  have hfiltered := (hagree.filter_error _).2 hfails
  have hcounted := (hagree.count_error _).2 hfiltered
  have hfound := hagree.some_finds.found_iff.2
    ⟨[.number 0], .number 1, [.null], rfl, List.forall_mem_singleton.2 (hfront _ (by simp)), hone⟩
  have hheld := hagree.every_finds.found_iff.2
    ⟨[], .number 0, [.number 1, .null], rfl, fun _ h => absurd h List.not_mem_nil, hzero⟩
  have hmapped := (hagree.map_error _).2 hfails
  obtain ⟨hlist, -⟩ := hshape .map rfl .null (.function p)
  obtain ⟨-, hfunction⟩ := hshape .map rfl .null .null
  obtain ⟨e, rfl, -, hthrow⟩ := hfunction fun f h => by cases h
  subst hfiltered hcounted hfound hheld hmapped
  exact ⟨hR, hp, hfilter, hcount, hsome, hevery, hmap, hlist (fun _ h => by cases h), hthrow⟩

end Agreement

end Builtin

end RuleLang
