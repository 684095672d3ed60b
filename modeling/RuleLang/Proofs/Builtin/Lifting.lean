import RuleLang.Builtin.Table
import RuleLang.Proofs.Eval.Lifting

/-!
# Builtins on related arguments

A builtin looks at its arguments without calling them, or calls one of them on the items of another. So what it
makes of related arguments is related, as long as calls are.
-/

namespace RuleLang

namespace Builtin

section Errors

variable {builtin : String} {args : List Value} {e : EvalError}

theorem kind_of_check {a : Arity} {given : Nat} (h : a.check builtin given = .error e) : e.kind = .arity := by
  unfold Arity.check at h
  split at h
  · cases h
  · cases h
    rfl

theorem kind_of_numberAt {i : Nat} (h : numberAt builtin args i = .error e) : e.kind = .typeMismatch := by
  rw [numberAt] at h
  split at h
  · cases h
  · cases h
    rfl

theorem kind_of_allNumbers (h : allNumbers builtin args = .error e) : e.kind = .typeMismatch := by
  rw [allNumbers] at h
  generalize List.range args.length = positions at h
  induction positions with
  | nil => cases h
  | cons i positions ih =>
    rw [List.mapM_cons] at h
    cases hi : numberAt builtin args i with
    | error e' =>
      rw [hi] at h
      cases h
      exact kind_of_numberAt hi
    | ok x =>
      rw [hi] at h
      cases hrest : positions.mapM (numberAt builtin args) with
      | error e' =>
        rw [hrest] at h
        cases h
        exact ih hrest
      | ok xs =>
        rw [hrest] at h
        cases h

theorem kind_of_bounds {size : Nat} (h : bounds builtin args size = .error e) : e.kind = .typeMismatch := by
  unfold bounds at h
  cases hstart : numberAt builtin args 1 with
  | error e =>
    rw [hstart] at h
    cases h
    exact kind_of_numberAt hstart
  | ok x =>
    rw [hstart] at h
    cases hgiven : args[2]? with
    | none =>
      rw [hgiven] at h
      cases h
    | some v =>
      rw [hgiven] at h
      cases hcount : numberAt builtin args 2 with
      | error e =>
        rw [hcount] at h
        cases h
        exact kind_of_numberAt hcount
      | ok y =>
        rw [hcount] at h
        cases h

end Errors

variable {F : Function → Function → Prop} {args args' : List Value}

theorem numberAt_eq (h : Paired (Value.Related F) args args') (builtin : String) (i : Nat) :
    numberAt builtin args i = numberAt builtin args' i := by
  have hi := h.getElem? i
  rw [numberAt, numberAt]
  generalize args[i]? = a at hi
  generalize args'[i]? = b at hi
  cases hi with
  | none => rfl
  | some hv => cases hv <;> rfl

theorem textAt_eq (h : Paired (Value.Related F) args args') (i : Nat) : textAt args i = textAt args' i := by
  have hi := h.getElem? i
  rw [textAt, textAt]
  generalize args[i]? = a at hi
  generalize args'[i]? = b at hi
  cases hi with
  | none => rfl
  | some hv => simp only [Option.map_some, hv.text_eq]

theorem functionAt_related (h : Paired (Value.Related F) args args') (builtin : String) (i : Nat) :
    Outcome.Like EvalError.Mismatch F (functionAt builtin args i) (functionAt builtin args' i) := by
  have hi := h.getElem? i
  rw [functionAt, functionAt]
  generalize args[i]? = a at hi
  generalize args'[i]? = b at hi
  cases hi with
  | none => exact .error ⟨rfl, rfl⟩
  | some hv =>
    cases hv with
    | function hf => exact .ok hf
    | _ => exact .error ⟨rfl, rfl⟩

theorem listAt_related (h : Paired (Value.Related F) args args') (i : Nat) :
    Paired (Value.Related F) (listAt args i) (listAt args' i) := by
  have hi := h.getElem? i
  rw [listAt, listAt]
  generalize args[i]? = a at hi
  generalize args'[i]? = b at hi
  cases hi with
  | none => exact .nil
  | some hv =>
    cases hv with
    | list h => exact h
    | _ => exact .nil

theorem numbers_eq {xs ys : List Value} (h : Paired (Value.Related F) xs ys) :
    xs.filterMap Value.toNumber? = ys.filterMap Value.toNumber? := by
  induction h with
  | nil => rfl
  | cons hv _ ih => rw [List.filterMap_cons, List.filterMap_cons, hv.toNumber?_eq, ih]

theorem total_eq {xs ys : List Value} (h : Paired (Value.Related F) xs ys) : total xs = total ys := by
  rw [total, total, numbers_eq h]

theorem average_eq {xs ys : List Value} (h : Paired (Value.Related F) xs ys) : average xs = average ys := by
  have hempty : xs.isEmpty = ys.isEmpty := by cases h <;> rfl
  rw [average, average, total_eq h, h.length_eq, hempty]

theorem onNumber_related (h : Paired (Value.Related F) args args') (builtin : String) (f : Float → Float) :
    Outcome.Like EvalError.Mismatch (Value.Related F) (onNumber builtin f args) (onNumber builtin f args') := by
  rw [onNumber, onNumber, numberAt_eq h]
  cases hx : numberAt builtin args' 0 with
  | error e => exact .error ⟨rfl, kind_of_numberAt hx⟩
  | ok x => exact .ok (.number _)

theorem power_related (h : Paired (Value.Related F) args args') (builtin : String) :
    Outcome.Like EvalError.Mismatch (Value.Related F) (power builtin args) (power builtin args') := by
  rw [power, power, numberAt_eq h, numberAt_eq h]
  cases hx : numberAt builtin args' 0 with
  | error e => exact .error ⟨rfl, kind_of_numberAt hx⟩
  | ok x =>
    cases hy : numberAt builtin args' 1 with
    | error e => exact .error ⟨rfl, kind_of_numberAt hy⟩
    | ok y => exact .ok (.number _)

theorem extreme_related (h : Paired (Value.Related F) args args') (builtin : String)
    (pick : Float → Float → Float) :
    Outcome.Like EvalError.Mismatch (Value.Related F) (extreme builtin pick args) (extreme builtin pick args') := by
  have hsame : allNumbers builtin args = allNumbers builtin args' := by
    rw [allNumbers, allNumbers, h.length_eq, funext (numberAt_eq h builtin)]
  rw [extreme, extreme, hsame]
  cases hnumbers : allNumbers builtin args' with
  | error e => exact .error ⟨rfl, kind_of_allNumbers hnumbers⟩
  | ok xs =>
    cases xs with
    | nil => exact .ok .null
    | cons x xs => exact .ok (.number _)

theorem bounds_eq (h : Paired (Value.Related F) args args') (builtin : String) (size : Nat) :
    bounds builtin args size = bounds builtin args' size := by
  have hgiven := h.getElem? 2
  unfold bounds
  rw [numberAt_eq h, numberAt_eq h]
  generalize args[2]? = a at hgiven
  generalize args'[2]? = b at hgiven
  cases hgiven <;> rfl

theorem substring_related (h : Paired (Value.Related F) args args') (builtin : String) :
    Outcome.Like EvalError.Mismatch (Value.Related F) (substring builtin args) (substring builtin args') := by
  rw [substring, substring, textAt_eq h, bounds_eq h]
  cases hbounds : bounds builtin args' (textAt args' 0).toList.length with
  | error e => exact .error ⟨rfl, kind_of_bounds hbounds⟩
  | ok span => exact .ok (.string _)

variable {m₁ m₂ : Type → Type} [Monad m₁] [MonadExceptOf EvalError m₁] [Monad m₂] [MonadExceptOf EvalError m₂]
  (L : Lifting m₁ m₂) {call₁ : Caller m₁} {call₂ : Caller m₂}

/-- Callers that do alike with related functions and arguments. -/
def CallsAlike (L : Lifting m₁ m₂) (F : Function → Function → Prop) (call₁ : Caller m₁) (call₂ : Caller m₂) : Prop :=
  ∀ {f g : Function} {args args' : List Value}, F f g → Paired (Value.Related F) args args' →
    L.rel (Value.Related F) (call₁ f args) (call₂ g args')

/-- A builtin may refuse its number of arguments before it runs. -/
theorem call_lift_of_run {b : Builtin} {R : Value → Value → Prop}
    (hcheck : ∀ e, b.arity.check b.name args.length = .error e → L.errors e e) (hlength : args.length = args'.length)
    (hrun : L.rel R (b.run call₁ args) (b.run call₂ args')) :
    L.rel R (b.call call₁ args) (b.call call₂ args') := by
  rw [call, call, ← hlength]
  refine L.bind (R := fun _ _ => True) (L.outcome ?_) fun _ _ _ => hrun
  cases hargs : b.arity.check b.name args.length with
  | ok _ => exact .ok trivial
  | error e => exact .error (hcheck e hargs)

section Visits

/-- Whether a builtin calls a function on the items of a list. -/
def visits : Builtin → Bool
  | .countIf | .filter | .some | .every | .map => true
  | _ => false

/--
Arguments of builtins that visit a list: the items are related by `A`, and the functions do alike on such items, with
results that are related by `B`. Nothing is asked of the functions on other arguments.
-/
structure VisitsAlike (L : Lifting m₁ m₂) (call₁ : Caller m₁) (call₂ : Caller m₂) (A B : Value → Value → Prop)
    (builtin : String) (args args' : List Value) : Prop where
  functions : Outcome.Like EvalError.Mismatch (fun f g => ∀ v w, A v w → L.rel B (call₁ f [v]) (call₂ g [w]))
    (functionAt builtin args 1) (functionAt builtin args' 1)
  items : Paired A (listAt args 0) (listAt args' 0)

theorem CallsAlike.visits {L : Lifting m₁ m₂} (hcall : CallsAlike L F call₁ call₂)
    (h : Paired (Value.Related F) args args') (builtin : String) :
    VisitsAlike L call₁ call₂ (Value.Related F) (Value.Related F) builtin args args' where
  functions := (functionAt_related h builtin 1).mono fun _ _ hfg _ _ hvw => hcall hfg (.cons hvw .nil)
  items := listAt_related h 0

variable {L} {A B C : Value → Value → Prop} {builtin : String}

theorem accepts_lift (hB : ∀ v w, B v w → v.truthy = w.truthy) {f g : Function}
    (hfg : ∀ v w, A v w → L.rel B (call₁ f [v]) (call₂ g [w])) (v w : Value) (h : A v w) :
    L.rel Eq (accepts call₁ f v) (accepts call₂ g w) :=
  L.bind (hfg v w h) fun _ _ hr => L.pure (hB _ _ hr)

variable (hvisit : VisitsAlike L call₁ call₂ A B builtin args args')

include hvisit

theorem mapItems_lift (hC : ∀ vs ws, Paired B vs ws → C (.list vs) (.list ws)) :
    L.rel C (mapItems call₁ builtin args) (mapItems call₂ builtin args') := by
  refine L.bind (L.typed hvisit.functions) fun f g hfg => ?_
  exact L.bind (L.mapM hfg hvisit.items) fun _ _ hresults => L.pure (hC _ _ hresults.1)

variable (hB : ∀ v w, B v w → v.truthy = w.truthy)

include hB

theorem countAccepted_lift (hC : ∀ x, C (.number x) (.number x)) :
    L.rel C (countAccepted call₁ builtin args) (countAccepted call₂ builtin args') := by
  refine L.bind (L.typed hvisit.functions) fun f g hfg => ?_
  refine L.bind (L.foldlM (fun n v w hvw => ?_) hvisit.items 0) fun n n' hn => ?_
  · refine L.bind (accepts_lift hB hfg v w hvw) fun b c hbc => ?_
    subst hbc
    exact L.pure rfl
  · subst hn
    exact L.pure (hC _)

theorem keepAccepted_lift (hC : ∀ vs ws, Paired A vs ws → C (.list vs) (.list ws)) :
    L.rel C (keepAccepted call₁ builtin args) (keepAccepted call₂ builtin args') := by
  refine L.bind (L.typed hvisit.functions) fun f g hfg => ?_
  exact L.bind (L.filterM (accepts_lift hB hfg) hvisit.items) fun _ _ hkept => L.pure (hC _ _ hkept)

theorem someAccepted_lift (hC : ∀ b, C (.boolean b) (.boolean b)) :
    L.rel C (someAccepted call₁ builtin args) (someAccepted call₂ builtin args') := by
  refine L.bind (L.typed hvisit.functions) fun f g hfg => ?_
  refine L.bind (L.anyM (accepts_lift hB hfg) hvisit.items) fun b c hbc => ?_
  subst hbc
  exact L.pure (hC _)

theorem everyAccepted_lift (hC : ∀ b, C (.boolean b) (.boolean b)) :
    L.rel C (everyAccepted call₁ builtin args) (everyAccepted call₂ builtin args') := by
  refine L.bind (L.typed hvisit.functions) fun f g hfg => ?_
  refine L.bind (L.allM (accepts_lift hB hfg) hvisit.items) fun b c hbc => ?_
  subst hbc
  exact L.pure (hC _)

omit hvisit hB in
/-- Visits do alike whatever else than the functions to call they are given. -/
theorem run_visits_lift {b : Builtin} (hb : b.visits = true)
    (hvisit : VisitsAlike L call₁ call₂ (Value.Related F) (Value.Related F) b.name args args') :
    L.rel (Value.Related F) (b.run call₁ args) (b.run call₂ args') := by
  have htruthy (v w : Value) (h : Value.Related F v w) : v.truthy = w.truthy := h.truthy_eq
  cases b with
  | countIf => exact countAccepted_lift hvisit htruthy .number
  | filter => exact keepAccepted_lift hvisit htruthy fun _ _ => .list
  | some => exact someAccepted_lift hvisit htruthy .boolean
  | every => exact everyAccepted_lift hvisit htruthy .boolean
  | map => exact mapItems_lift hvisit fun _ _ => .list
  | _ => cases hb

end Visits

section Runs

variable {L} (hcall : CallsAlike L F call₁ call₂)

include hcall

theorem run_lift (b : Builtin) (h : Paired (Value.Related F) args args') :
    L.rel (Value.Related F) (b.run call₁ args) (b.run call₂ args') := by
  cases b with
  | abs => exact L.typed (onNumber_related h _ _)
  | ceil => exact L.typed (onNumber_related h _ _)
  | floor => exact L.typed (onNumber_related h _ _)
  | round => exact L.typed (onNumber_related h _ _)
  | sqrt => exact L.typed (onNumber_related h _ _)
  | max => exact L.typed (extreme_related h _ _)
  | min => exact L.typed (extreme_related h _ _)
  | pow => exact L.typed (power_related h _)
  | len =>
    simp only [run, length, textAt_eq h]
    exact L.pure (.number _)
  | upper =>
    simp only [run, onText, textAt_eq h]
    exact L.pure (.string _)
  | lower =>
    simp only [run, onText, textAt_eq h]
    exact L.pure (.string _)
  | trim =>
    simp only [run, onText, textAt_eq h]
    exact L.pure (.string _)
  | substr => exact L.typed (substring_related h _)
  | count =>
    simp only [run, itemCount, (listAt_related h 0).length_eq]
    exact L.pure (.number _)
  | sum =>
    simp only [run, onItems, total_eq (listAt_related h 0)]
    exact L.pure (.number _)
  | avg =>
    simp only [run, onItems, average_eq (listAt_related h 0)]
    exact L.pure (.number _)
  | countIf => exact run_visits_lift rfl (hcall.visits h _)
  | filter => exact run_visits_lift rfl (hcall.visits h _)
  | some => exact run_visits_lift rfl (hcall.visits h _)
  | every => exact run_visits_lift rfl (hcall.visits h _)
  | map => exact run_visits_lift rfl (hcall.visits h _)

theorem call_lift (b : Builtin) (hcheck : ∀ e, b.arity.check b.name args.length = .error e → L.errors e e)
    (h : Paired (Value.Related F) args args') :
    L.rel (Value.Related F) (b.call call₁ args) (b.call call₂ args') :=
  call_lift_of_run L hcheck h.length_eq (run_lift hcall b h)

end Runs

end Builtin

end RuleLang
