import RuleLang.Proofs.Eval.Settling

/-!
# Where closures come from

A value that exists when `n` evaluations have been started holds closures of these only. So a renumbering needs to
speak of no other evaluations, and an evaluation that is opened later is new to the value.
-/

namespace RuleLang

/-- The first `n` numbers, each kept as it is. -/
def Below (n i j : Nat) : Prop :=
  i = j ∧ i < n

/-- Values whose closures all belong to the first `n` evaluations. -/
abbrev Value.Owned (n : Nat) (v : Value) : Prop :=
  Value.Renumbered (Below n) v v

/-- Names whose values hold closures of the first `n` evaluations only. -/
abbrev Scope.Owned (n : Nat) (scope : List (String × Value)) : Prop :=
  Scope.Renumbered (Below n) scope scope

theorem Renumbering.below (es : Evaluations) (n : Nat) : Renumbering (Below n) es es where
  agree := by
    rintro i _ ⟨rfl, -⟩
    rfl
  unique := by
    rintro i _ k _ ⟨rfl, -⟩ ⟨rfl, -⟩
    exact Iff.rfl

section Monotone

variable {ρ σ : Nat → Nat → Prop}

mutual

/-- What is the same under a renumbering is the same under one that knows more. -/
theorem Value.Related.mono (h : ∀ i j, ρ i j → σ i j) {v w : Value} (hvw : Value.Renumbered ρ v w) :
    Value.Renumbered σ v w := by
  match hvw with
  | .null => exact .null
  | .boolean b => exact .boolean b
  | .number x => exact .number x
  | .string s => exact .string s
  | .list hitems => exact .list (items_mono h hitems)
  | .map hentries => exact .map (entries_mono h hentries)
  | .function hf => exact .function (hf.mono h)

theorem Function.Renumbered.mono (h : ∀ i j, ρ i j → σ i j) {f g : Function} (hfg : Function.Renumbered ρ f g) :
    Function.Renumbered σ f g := by
  match hfg with
  | .host id behaviour => exact .host id behaviour
  | .closure id param body hk hscope => exact .closure id param body (h _ _ hk) (entries_mono h hscope)

theorem items_mono (h : ∀ i j, ρ i j → σ i j) {xs ys : List Value} (hitems : Paired (Value.Renumbered ρ) xs ys) :
    Paired (Value.Renumbered σ) xs ys := by
  match hitems with
  | .nil => exact .nil
  | .cons hvw hitems => exact .cons (hvw.mono h) (items_mono h hitems)

theorem entries_mono (h : ∀ i j, ρ i j → σ i j) {es fs : List (String × Value)}
    (hentries : Scope.Renumbered ρ es fs) : Scope.Renumbered σ es fs := by
  match hentries with
  | .nil => exact .nil
  | .cons (.mk hvw) hentries => exact .cons (.mk (hvw.mono h)) (entries_mono h hentries)

end

theorem Below.mono {n n' : Nat} (h : n ≤ n') (i j : Nat) (hij : Below n i j) : Below n' i j :=
  ⟨hij.1, Nat.lt_of_lt_of_le hij.2 h⟩

end Monotone

section Json

variable {F : Function → Function → Prop}

mutual

/-- The value of a JSON value holds no functions at all. -/
theorem Value.ofJson_related (j : Json) : Value.Related F (Value.ofJson j) (Value.ofJson j) := by
  match j with
  | .null => exact .null
  | .boolean b => exact .boolean b
  | .integer n => exact .number _
  | .fraction x => exact .number x
  | .string s => exact .string s
  | .array items =>
    rw [Value.ofJson]
    exact .list (itemsOfJson_related items)
  | .object members =>
    rw [Value.ofJson]
    exact .map (entriesOfJson_related members)

theorem itemsOfJson_related (items : List Json) :
    Paired (Value.Related F) (Value.itemsOfJson items) (Value.itemsOfJson items) := by
  match items with
  | [] =>
    rw [Value.itemsOfJson]
    exact .nil
  | j :: items =>
    rw [Value.itemsOfJson]
    exact .cons (Value.ofJson_related j) (itemsOfJson_related items)

theorem entriesOfJson_related (members : List (String × Json)) :
    Paired (Bound (Value.Related F)) (Value.entriesOfJson members) (Value.entriesOfJson members) := by
  match members with
  | [] =>
    rw [Value.entriesOfJson]
    exact .nil
  | (name, j) :: members =>
    rw [Value.entriesOfJson]
    exact .cons (.mk (Value.ofJson_related j)) (entriesOfJson_related members)

end

/-- A context that comes from JSON binds no functions. -/
theorem Context.ofJson_related {j : Json} {c : Context} (h : Context.ofJson j = .ok c) :
    Paired (Bound (Value.Related F)) c.entries c.entries := by
  have hvalue : Value.Related F (Value.ofJson j) (Value.ofJson j) := Value.ofJson_related j
  rw [Context.ofJson] at h
  generalize Value.ofJson j = v at h hvalue
  cases v with
  | map entries =>
    cases h
    cases hvalue with
    | map hentries => exact hentries
  | _ => cases h

end Json

section Entries

variable {α β : Type} {R : α → β → Prop} {es : Entries α} {fs : Entries β}

theorem Entries.insert_related (h : Paired (Bound R) es fs) (name : String) {a : α} {b : β} (hab : R a b) :
    Paired (Bound R) (es.insert name a) (fs.insert name b) := by
  induction h with
  | nil => exact .cons (.mk hab) .nil
  | cons hbound hrest ih =>
    cases hbound with
    | mk hold =>
      rw [Entries.insert, Entries.insert]
      split
      · exact .cons (.mk hab) hrest
      · exact .cons (.mk hold) ih

theorem Entries.insertAll_related (h : Paired (Bound R) es fs) {as : List (String × α)} {bs : List (String × β)}
    (hpairs : Paired (Bound R) as bs) : Paired (Bound R) (es.insertAll as) (fs.insertAll bs) := by
  induction hpairs generalizing es fs with
  | nil => exact h
  | cons hbound _ ih =>
    cases hbound with
    | mk hab => exact ih (Entries.insert_related h _ hab)

end Entries

end RuleLang
