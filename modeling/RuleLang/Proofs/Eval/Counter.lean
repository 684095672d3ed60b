import RuleLang.Eval.Evaluation

/-!
# The counters of evaluations

How the counters of evaluations change, and what is left under all limits together. Every nesting of an expression
raises one counter that was below its limit, so what is left goes down with every nesting.
-/

namespace RuleLang.Evaluations

variable (es : Evaluations) (k depth : Nat)

@[simp]
theorem limit_get_setDepth (i : Nat) : ((es.setDepth k depth).get i).limit = (es.get i).limit := by
  simp only [get, setDepth, List.getD_eq_getElem?_getD, List.getElem?_modify]
  cases es[i]? with
  | none => rfl
  | some e => by_cases h : k = i <;> simp [h]

theorem get_setDepth_of_ne {i : Nat} (h : i ≠ k) : (es.setDepth k depth).get i = es.get i := by
  simp only [get, setDepth, List.getD_eq_getElem?_getD, List.getElem?_modify_ne _ _ h.symm]

theorem get_setDepth {k : Nat} (h : k < es.length) : (es.setDepth k depth).get k = ⟨(es.get k).limit, depth⟩ := by
  simp [get, setDepth, List.getD_eq_getElem?_getD, List.getElem?_modify_eq, List.getElem?_eq_getElem h]

/-- Only evaluations that were started may nest. -/
theorem lt_length_of_lt_limit {k depth : Nat} (h : depth < (es.get k).limit) : k < es.length := by
  rw [← Nat.not_le]
  intro hle
  rw [get, List.getD_eq_getElem?_getD, List.getElem?_eq_none hle] at h
  cases h

/-- An evaluation that is added comes last. -/
@[simp]
theorem get_concat_length (e : Evaluation) : Evaluations.get (es ++ [e]) es.length = e := by
  rw [get, List.getD_eq_getElem?_getD, List.getElem?_concat_length, Option.getD_some]

theorem get_concat_of_ne (e : Evaluation) {i : Nat} (h : i ≠ es.length) :
    Evaluations.get (es ++ [e]) i = es.get i := by
  rw [get, get, List.getD_eq_getElem?_getD, List.getD_eq_getElem?_getD]
  rcases Nat.lt_or_gt_of_ne h with hlt | hgt
  · rw [List.getElem?_append_left hlt]
  · rw [List.getElem?_eq_none (Nat.le_of_lt hgt), List.getElem?_eq_none]
    rw [List.length_append]
    exact hgt

/-- Evaluations that come later do not change those before. -/
theorem get_append_of_lt (fresh : Evaluations) {i : Nat} (h : i < es.length) :
    Evaluations.get (es ++ fresh) i = es.get i := by
  rw [get, get, List.getD_eq_getElem?_getD, List.getD_eq_getElem?_getD, List.getElem?_append_left h]

theorem depth_get_of_idle {es : Evaluations} (h : ∀ e ∈ es, e.depth = 0) (i : Nat) : (es.get i).depth = 0 := by
  rw [get, List.getD_eq_getElem?_getD]
  cases hget : es[i]? with
  | none => rfl
  | some e => exact h e (List.mem_of_getElem? hget)

/-- Setting a counter again forgets what it was set to before. -/
@[simp]
theorem setDepth_setDepth (depth' : Nat) : (es.setDepth k depth).setDepth k depth' = es.setDepth k depth' := by
  apply List.ext_getElem?
  intro i
  simp only [setDepth, List.getElem?_modify]
  cases es[i]? with
  | none => rfl
  | some e => by_cases h : k = i <;> simp [h]

/-- A counter that is set to what it holds stays as it is. -/
@[simp]
theorem setDepth_get : es.setDepth k (es.get k).depth = es := by
  apply List.ext_getElem?
  intro i
  simp only [setDepth, get, List.getD_eq_getElem?_getD, List.getElem?_modify]
  by_cases h : k = i
  · subst h
    cases es[k]? <;> simp
  · simp [h]

/-- All levels that the limits leave. -/
def slack (es : Evaluations) : Nat :=
  es.foldr (fun e n => e.limit - e.depth + n) 0

theorem slack_le_capacity : es.slack ≤ es.capacity := by
  induction es with
  | nil => exact Nat.le_refl 0
  | cons e es ih =>
    simp only [slack, capacity, List.foldr_cons] at ih ⊢
    omega

@[simp]
theorem capacity_setDepth : (es.setDepth k depth).capacity = es.capacity := by
  induction es generalizing k with
  | nil => rw [setDepth, List.modify_nil]
  | cons e es ih =>
    cases k with
    | zero => rfl
    | succ k => exact congrArg (e.limit + ·) (ih k)

/-- One more level leaves less. -/
theorem slack_setDepth_succ_lt {k depth : Nat} (h : depth < (es.get k).limit) :
    (es.setDepth k (depth + 1)).slack < (es.setDepth k depth).slack := by
  induction es generalizing k with
  | nil => cases h
  | cons e es ih =>
    cases k with
    | zero =>
      have hlt : e.limit - (depth + 1) < e.limit - depth := by
        have hlimit : depth < e.limit := h
        omega
      exact Nat.add_lt_add_right hlt _
    | succ k => exact Nat.add_lt_add_left (ih h) _

end RuleLang.Evaluations
