/-!
# Visits with a test that may fail

A list is visited from its first item on, with a test of each item that gives a truth value or fails, and the first
failure ends the visit. A search ends at a result as well; what keeps items does not. The loops of the library over
lists are such visits, and how one ends can be told from the results of the test alone.
-/

namespace RuleLang

/-- There is an item that `Q` holds of, and `P` holds of all items before it. -/
def Meets {α : Type} (P Q : α → Prop) (items : List α) : Prop :=
  ∃ front x rest, items = front ++ x :: rest ∧ (∀ y ∈ front, P y) ∧ Q x

section Tests

variable {α β ε : Type} {P Q : α → Prop} {x : α} {items : List α} {e : ε}

theorem not_meets_nil : ¬Meets P Q [] := by
  rintro ⟨front, x, rest, h, -⟩
  exact List.append_ne_nil_of_right_ne_nil front (List.cons_ne_nil x rest) h.symm

theorem meets_cons_iff : Meets P Q (x :: items) ↔ Q x ∨ P x ∧ Meets P Q items := by
  constructor
  · rintro ⟨front, y, rest, h, hfront, hy⟩
    rcases List.cons_eq_append_iff.1 h with ⟨rfl, heq⟩ | ⟨front', rfl, heq⟩
    · cases heq
      exact .inl hy
    · obtain ⟨hx, hfront'⟩ := List.forall_mem_cons.1 hfront
      exact .inr ⟨hx, front', y, rest, heq, hfront', hy⟩
  · rintro (hx | ⟨hx, front, y, rest, rfl, hfront, hy⟩)
    · exact ⟨[], x, items, rfl, nofun, hx⟩
    · exact ⟨x :: front, y, rest, rfl, List.forall_mem_cons.2 ⟨hx, hfront⟩, hy⟩

theorem Meets.congr {P' Q' : α → Prop} (hP : ∀ x, P x ↔ P' x) (hQ : ∀ x, Q x ↔ Q' x) :
    Meets P Q items ↔ Meets P' Q' items := by
  rw [funext fun x => propext (hP x), funext fun x => propext (hQ x)]

/-- Looks for an item with the result `b`. -/
def seek (b : Bool) (test : α → Except ε Bool) : List α → Except ε Bool
  | [] => .ok !b
  | x :: items =>
    match test x with
    | .error e => .error e
    | .ok c => if c = b then .ok b else seek b test items

/-- Keeps the items with the result true. -/
def keep (test : α → Except ε Bool) : List α → Except ε (List α)
  | [] => .ok []
  | x :: items =>
    match test x with
    | .error e => .error e
    | .ok c => (keep test items).map fun kept => if c then x :: kept else kept

def passes (test : α → Except ε Bool) (x : α) : Bool :=
  match test x with
  | .ok c => c
  | .error _ => false

variable {test : α → Except ε Bool}

theorem map_eq_ok_iff {r : Except ε α} {f : α → β} {b : β} : r.map f = .ok b ↔ ∃ a, r = .ok a ∧ f a = b := by
  cases r <;> simp [Except.map]

theorem map_eq_error_iff {r : Except ε α} {f : α → β} : r.map f = .error e ↔ r = .error e := by
  cases r <;> simp [Except.map]

theorem anyM_eq_seek : items.anyM test = seek true test items := by
  induction items with
  | nil => rfl
  | cons x items ih =>
    rw [List.anyM_cons, seek, ih]
    rcases test x with e | c
    · rfl
    · cases c <;> rfl

theorem allM_eq_seek : items.allM test = seek false test items := by
  induction items with
  | nil => rfl
  | cons x items ih =>
    rw [List.allM_cons, seek, ih]
    rcases test x with e | c
    · rfl
    · cases c <;> rfl

/-- The search fails with an error before which there are only items with the other result. -/
theorem seek_eq_error_iff {b : Bool} :
    seek b test items = .error e ↔ Meets (fun x => test x = .ok !b) (fun x => test x = .error e) items := by
  induction items with
  | nil => exact ⟨nofun, fun h => absurd h not_meets_nil⟩
  | cons x items ih =>
    rw [meets_cons_iff, seek, ← ih]
    rcases test x with e' | c
    · simp
    · by_cases hc : c = b
      · simp [hc]
      · simp [Bool.eq_not_of_ne hc]

/-- The search succeeds at an item with the result before any error. -/
theorem seek_eq_found_iff {b : Bool} :
    seek b test items = .ok b ↔ Meets (fun x => ∃ c, test x = .ok c) (fun x => test x = .ok b) items := by
  induction items with
  | nil => exact ⟨fun h => absurd h (by simp [seek]), fun h => absurd h not_meets_nil⟩
  | cons x items ih =>
    rw [meets_cons_iff, seek, ← ih]
    rcases test x with e' | c
    · simp
    · by_cases hc : c = b
      · simp [hc]
      · simp [hc]

theorem seek_eq_missed_iff {b : Bool} : seek b test items = .ok !b ↔ ∀ x ∈ items, test x = .ok !b := by
  induction items with
  | nil => exact ⟨fun _ => nofun, fun _ => rfl⟩
  | cons x items ih =>
    rw [List.forall_mem_cons, seek, ← ih]
    rcases test x with e' | c
    · simp
    · by_cases hc : c = b
      · simp [hc]
      · simp [Bool.eq_not_of_ne hc]

theorem filterAuxM_eq_keep {kept : List α} :
    List.filterAuxM test items kept = (keep test items).map fun kept' => kept'.reverse ++ kept := by
  induction items generalizing kept with
  | nil => rfl
  | cons x items ih =>
    have hstep : List.filterAuxM test (x :: items) kept =
        (test x).bind fun c => List.filterAuxM test items (cond c (x :: kept) kept) := rfl
    rw [hstep, keep]
    rcases test x with e | c
    · rfl
    · change List.filterAuxM test items (cond c (x :: kept) kept) = _
      rw [ih]
      rcases keep test items with e | kept'
      · rfl
      · cases c <;> simp [Except.map]

theorem filterM_eq_keep : items.filterM test = keep test items := by
  have hfilter : items.filterM test = (List.filterAuxM test items []).map List.reverse := by
    show (List.filterAuxM test items []).bind _ = _
    rcases List.filterAuxM test items [] with e | kept <;> rfl
  rw [hfilter, filterAuxM_eq_keep]
  rcases keep test items with e | kept
  · rfl
  · simp [Except.map]

/-- Counting is the length of what is kept. -/
theorem foldlM_eq_keep {n : Nat} :
    items.foldlM (fun n x => do return if ← test x then n + 1 else n) n =
      (keep test items).map fun kept => n + kept.length := by
  induction items generalizing n with
  | nil => rfl
  | cons x items ih =>
    rw [List.foldlM_cons, keep]
    rcases test x with e | c
    · rfl
    · have hstep := @ih (if c then n + 1 else n)
      change items.foldlM (fun n x => do return if ← test x then n + 1 else n) (if c then n + 1 else n) = _
      rw [hstep]
      rcases keep test items with e | kept
      · rfl
      · cases c
        · rfl
        · simp [Except.map]
          omega

theorem keep_eq_error_iff :
    keep test items = .error e ↔ Meets (fun x => ∃ c, test x = .ok c) (fun x => test x = .error e) items := by
  induction items with
  | nil => exact ⟨nofun, fun h => absurd h not_meets_nil⟩
  | cons x items ih =>
    rw [meets_cons_iff, keep, ← ih]
    rcases test x with e' | c
    · simp
    · simp [map_eq_error_iff]

theorem keep_eq_ok_iff {kept : List α} :
    keep test items = .ok kept ↔ (∀ x ∈ items, ∃ c, test x = .ok c) ∧ kept = items.filter (passes test) := by
  induction items generalizing kept with
  | nil => simp [keep, eq_comm]
  | cons x items ih =>
    rw [List.forall_mem_cons, keep, List.filter_cons, passes]
    rcases test x with e' | c
    · simp
    · simp only [map_eq_ok_iff, ih, and_assoc, exists_and_left, exists_eq_left, Except.ok.injEq, exists_eq', true_and]
      exact and_congr_right fun _ => eq_comm

theorem mapM_eq_error_iff {f : α → Except ε β} :
    items.mapM f = .error e ↔ Meets (fun x => ∃ y, f x = .ok y) (fun x => f x = .error e) items := by
  induction items with
  | nil => exact ⟨nofun, fun h => absurd h not_meets_nil⟩
  | cons x items ih =>
    rw [meets_cons_iff, List.mapM_cons, ← ih]
    rcases f x with e' | y
    · simp [bind, Except.bind]
    · rcases items.mapM f with e' | ys <;> simp [bind, Except.bind, pure, Except.pure]

theorem mapM_eq_ok_iff {f : α → Except ε β} {ys : List β} : items.mapM f = .ok ys ↔ items.map f = ys.map .ok := by
  induction items generalizing ys with
  | nil => cases ys <;> simp [pure, Except.pure]
  | cons x items ih =>
    have hstep : (x :: items).mapM f = (f x).bind fun y => (items.mapM f).map fun ys => y :: ys := by
      rw [List.mapM_cons]
      rcases f x with e | y
      · rfl
      · rcases items.mapM f with e | ys <;> rfl
    rw [hstep, List.map_cons]
    rcases f x with e | y
    · cases ys <;> simp [Except.bind]
    · cases ys with
      | nil => simp [Except.bind, map_eq_ok_iff]
      | cons z zs =>
        show ((items.mapM f).map fun ys => y :: ys) = .ok (z :: zs) ↔ _
        simp only [map_eq_ok_iff, ih, List.map_cons, List.cons.injEq, Except.ok.injEq]
        constructor
        · intro h
          obtain ⟨ys, hys, rfl, rfl⟩ := h
          exact ⟨rfl, hys⟩
        · intro h
          obtain ⟨rfl, hzs⟩ := h
          exact ⟨zs, hzs, rfl, rfl⟩

end Tests

end RuleLang
