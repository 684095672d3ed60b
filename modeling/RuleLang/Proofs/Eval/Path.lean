import Mathlib
import RuleLang.Proofs.Eval.Keeping
import RuleLang.Proofs.Number.Truncation

/-!
# Paths

`Path.Leads` says where a path leads to from a value: it reaches a value, or it misses because one of its steps leads
nowhere, or the index of one of its steps fails. A path that is cut in two leads through the value that its first part
reaches, and what comes after a miss is not looked at.
-/

namespace RuleLang

/-- Maps have the properties that they have entries for. -/
inductive Value.HasProperty : Value → String → Value → Prop
  | map {entries : List (String × Value)} {name : String} {w : Value} :
      Entries.get? name entries = some w → HasProperty (.map entries) name w

/-- Lists have an item for every finite number whose integer part is below their length and not negative; numbers that
need more than 64 bits count as the largest natural that does not. -/
inductive Value.HasItem : Value → Value → Value → Prop
  | list {items : List Value} {x : Float} {n : Nat} {w : Value} :
      Number.integerPart? x = some (n : Int) → items[min n (UInt64.size - 1)]? = some w →
      HasItem (.list items) (.number x) w

/-- Where a path leads to. -/
inductive PathEnd where
  | reached (v : Value)
  | missed
  | failed (e : EvalError)

/-- What a reference gives for the end of its path: null for a miss. -/
def PathEnd.outcome : PathEnd → Except EvalError Value
  | .reached v => .ok v
  | .missed => .ok .null
  | .failed e => .error e

/--
A path leads from a value to an end, given the outcomes of the indices: `eval x n o n'` says that the index `x` has the
outcome `o` when `n` functions have been made before and `n'` after. The index of a step is evaluated before it is
known whether the value is a list.
-/
inductive Path.Leads (eval : Expr → Nat → Except EvalError Value → Nat → Prop) :
    Value → List Segment → Nat → PathEnd → Nat → Prop
  | here {v : Value} {n : Nat} : Leads eval v [] n (.reached v) n
  | property {v w : Value} {name : String} {segments : List Segment} {n n' : Nat} {e : PathEnd} :
      v.HasProperty name w → Leads eval w segments n e n' → Leads eval v (.property name :: segments) n e n'
  | noProperty {v : Value} {name : String} {segments : List Segment} {n : Nat} :
      (∀ w, ¬v.HasProperty name w) → Leads eval v (.property name :: segments) n .missed n
  | item {v w i : Value} {x : Expr} {segments : List Segment} {n n' n'' : Nat} {e : PathEnd} :
      eval x n (.ok i) n' → v.HasItem i w → Leads eval w segments n' e n'' →
      Leads eval v (.index x :: segments) n e n''
  | noItem {v i : Value} {x : Expr} {segments : List Segment} {n n' : Nat} :
      eval x n (.ok i) n' → (∀ w, ¬v.HasItem i w) → Leads eval v (.index x :: segments) n .missed n'
  | fails {v : Value} {x : Expr} {error : EvalError} {segments : List Segment} {n n' : Nat} :
      eval x n (.error error) n' → Leads eval v (.index x :: segments) n (.failed error) n'

section Steps

variable {v w i : Value} {name : String}

theorem Value.property?_eq_some_iff : v.property? name = some w ↔ v.HasProperty name w := by
  constructor
  · intro h
    cases v with
    | map entries => exact .map h
    | _ => cases h
  · rintro ⟨h⟩
    exact h

/-- A number is an index if its integer part is a natural. -/
theorem Value.index?_number {x : Float} {i : Nat} :
    (Value.number x).index? = some i ↔
      ∃ n : Nat, Number.integerPart? x = some (n : Int) ∧ min n (UInt64.size - 1) = i := by
  rw [Value.index?, Number.integerPart?]
  cases hx : Number.Dyadic.ofFloat? x with
  | none =>
    have hfinite : x.isFinite = false := by
      rw [← Bool.not_eq_true, Number.isFinite_iff, hx]
      rintro ⟨d, hd⟩
      cases hd
    simp [hfinite]
  | some d =>
    have hfinite : x.isFinite = true := Number.isFinite_iff.2 ⟨d, hx⟩
    have htruncate : Number.truncate x = min d.truncated.toNat (UInt64.size - 1) :=
      Number.truncate_eq (by rw [Number.integerPart?, hx]; rfl)
    simp only [hfinite, Number.neg_one_lt_iff hx, htruncate, Bool.true_and, Option.map_some, Option.some_inj,
      decide_eq_true_eq]
    constructor
    · intro h
      obtain ⟨hnonneg, hi⟩ := Option.ite_none_right_eq_some.1 h
      exact ⟨d.truncated.toNat, (Int.toNat_of_nonneg hnonneg).symm, Option.some.inj hi⟩
    · rintro ⟨n, hn, rfl⟩
      rw [hn, if_pos (Int.natCast_nonneg n), Int.toNat_natCast]

theorem Value.item?_eq_some_iff : v.item? i = some w ↔ v.HasItem i w := by
  constructor
  · intro h
    cases v with
    | list items =>
      obtain ⟨k, hk, hw⟩ := Option.bind_eq_some_iff.1 h
      cases i with
      | number x =>
        obtain ⟨n, hn, rfl⟩ := Value.index?_number.1 hk
        exact .list hn hw
      | _ => cases hk
    | _ => cases h
  · rintro ⟨hn, hw⟩
    exact Option.bind_eq_some_iff.2 ⟨_, Value.index?_number.2 ⟨_, hn, rfl⟩, hw⟩

theorem Value.property?_eq_none_iff : v.property? name = none ↔ ∀ w, ¬v.HasProperty name w := by
  simp only [Option.eq_none_iff_forall_ne_some, ne_eq, Value.property?_eq_some_iff]

theorem Value.item?_eq_none_iff : v.item? i = none ↔ ∀ w, ¬v.HasItem i w := by
  simp only [Option.eq_none_iff_forall_ne_some, ne_eq, Value.item?_eq_some_iff]

theorem Value.HasProperty.unique {w' : Value} (h : v.HasProperty name w) (h' : v.HasProperty name w') : w = w' :=
  Option.some.inj ((Value.property?_eq_some_iff.2 h).symm.trans (Value.property?_eq_some_iff.2 h'))

theorem Value.HasItem.unique {w' : Value} (h : v.HasItem i w) (h' : v.HasItem i w') : w = w' :=
  Option.some.inj ((Value.item?_eq_some_iff.2 h).symm.trans (Value.item?_eq_some_iff.2 h'))

end Steps

namespace Path

variable {eval eval' : Expr → Nat → Except EvalError Value → Nat → Prop} {v w : Value} {p q : List Segment}
  {n n' n'' : Nat} {e : PathEnd}

namespace Leads

theorem mono (heval : ∀ {x n o n'}, eval x n o n' → eval' x n o n') (h : Leads eval v p n e n') :
    Leads eval' v p n e n' := by
  induction h with
  | here => exact .here
  | property hw _ ih => exact .property hw ih
  | noProperty hno => exact .noProperty hno
  | item hi hw _ ih => exact .item (heval hi) hw ih
  | noItem hi hno => exact .noItem (heval hi) hno
  | fails hi => exact .fails (heval hi)

/-- Functions are only made on the way, never lost. -/
theorem le (heval : ∀ {x n o n'}, eval x n o n' → n ≤ n') (h : Leads eval v p n e n') : n ≤ n' := by
  induction h with
  | here | noProperty => exact Nat.le_refl _
  | property _ _ ih => exact ih
  | item hi _ _ ih => exact Nat.le_trans (heval hi) ih
  | noItem hi _ | fails hi => exact heval hi

/-- A path goes on from the value that its first part reaches. -/
theorem append (h : Leads eval v p n (.reached w) n') (h' : Leads eval w q n' e n'') :
    Leads eval v (p ++ q) n e n'' := by
  generalize he : PathEnd.reached w = ending at h
  induction h with
  | here =>
    cases he
    exact h'
  | property hw _ ih => exact .property hw (ih h' he)
  | item hi hw _ ih => exact .item hi hw (ih h' he)
  | noProperty | noItem | fails => cases he

/-- After a miss there is nothing more to follow. -/
theorem append_of_missed (h : Leads eval v p n .missed n') : Leads eval v (p ++ q) n .missed n' := by
  generalize he : PathEnd.missed = ending at h
  induction h with
  | here | fails => cases he
  | property hw _ ih => exact .property hw (ih he)
  | item hi hw _ ih => exact .item hi hw (ih he)
  | noProperty hno => exact .noProperty hno
  | noItem hi hno => exact .noItem hi hno

/-- If indices have one outcome, then a path leads where its rest leads from the value that its first part reaches. -/
theorem of_append (heval : ∀ {x n o o' n' n''}, eval x n o n' → eval x n o' n'' → o = o' ∧ n' = n'')
    (h : Leads eval v p n (.reached w) n') (h' : Leads eval v (p ++ q) n e n'') : Leads eval w q n' e n'' := by
  generalize he : PathEnd.reached w = ending at h
  induction h with
  | here =>
    cases he
    exact h'
  | property hw _ ih =>
    cases h' with
    | property hw' h' =>
      obtain rfl := hw.unique hw'
      exact ih h' he
    | noProperty hno => exact absurd hw (hno _)
  | item hi hw _ ih =>
    cases h' with
    | item hi' hw' h' =>
      obtain ⟨hvalue, rfl⟩ := heval hi hi'
      cases hvalue
      obtain rfl := hw.unique hw'
      exact ih h' he
    | noItem hi' hno =>
      obtain ⟨hvalue, rfl⟩ := heval hi hi'
      cases hvalue
      exact absurd hw (hno _)
    | fails hi' => cases (heval hi hi').1
  | noProperty | noItem | fails => cases he

/-- A path fails with the error of an index that follows on a value that is reached. -/
theorem failed_iff {error : EvalError} :
    Leads eval v p n (.failed error) n'' ↔ ∃ front x rest w n', p = front ++ .index x :: rest ∧
      Leads eval v front n (.reached w) n' ∧ eval x n' (.error error) n'' := by
  constructor
  · intro h
    generalize he : PathEnd.failed error = ending at h
    induction h with
    | here | noProperty | noItem => cases he
    | property hw _ ih =>
      obtain ⟨front, x, rest, w', n', rfl, hfront, hx⟩ := ih he
      exact ⟨_ :: front, x, rest, w', n', rfl, .property hw hfront, hx⟩
    | item hi hw _ ih =>
      obtain ⟨front, x, rest, w', n', rfl, hfront, hx⟩ := ih he
      exact ⟨_ :: front, x, rest, w', n', rfl, .item hi hw hfront, hx⟩
    | fails hi =>
      cases he
      exact ⟨[], _, _, _, _, rfl, .here, hi⟩
  · rintro ⟨front, x, rest, w, n', rfl, hfront, hx⟩
    exact hfront.append (.fails hx)

end Leads

/-- What is followed leads somewhere. -/
theorem leads_of_follow {evaluate : Expr → Run Value} {es : Evaluations}
    (hkeeps : ∀ {x n o r}, evaluate x ⟨es, n⟩ = some (o, r) → ∃ n', r = ⟨es, n'⟩) {o : Except EvalError Value}
    {r : Registry} (h : follow evaluate v p ⟨es, n⟩ = some (o, r)) :
    ∃ e n', r = ⟨es, n'⟩ ∧ o = e.outcome ∧
      Leads (fun x n o n' => evaluate x ⟨es, n⟩ = some (o, ⟨es, n'⟩)) v p n e n' := by
  induction p generalizing v n with
  | nil =>
    cases h
    exact ⟨.reached v, n, rfl, rfl, .here⟩
  | cons segment p ih =>
    cases segment with
    | property name =>
      rw [follow] at h
      cases hw : v.property? name with
      | none =>
        rw [hw] at h
        cases h
        exact ⟨.missed, n, rfl, rfl, .noProperty (Value.property?_eq_none_iff.1 hw)⟩
      | some w =>
        rw [hw] at h
        obtain ⟨e, n', hr, ho, hleads⟩ := ih h
        exact ⟨e, n', hr, ho, .property (Value.property?_eq_some_iff.1 hw) hleads⟩
    | index x =>
      rw [follow] at h
      rcases Run.bind_eq_some h with ⟨error, hx, rfl⟩ | ⟨i, r', hx, h⟩
      · obtain ⟨n', rfl⟩ := hkeeps hx
        exact ⟨.failed error, n', rfl, rfl, .fails hx⟩
      · obtain ⟨n', rfl⟩ := hkeeps hx
        cases hw : v.item? i with
        | none =>
          rw [hw] at h
          cases h
          exact ⟨.missed, n', rfl, rfl, .noItem hx (Value.item?_eq_none_iff.1 hw)⟩
        | some w =>
          rw [hw] at h
          obtain ⟨e, n'', hr, ho, hleads⟩ := ih h
          exact ⟨e, n'', hr, ho, .item hx (Value.item?_eq_some_iff.1 hw) hleads⟩

end Path

end RuleLang
