import RuleLang.Eval.Operator

/-!
# Values that differ only in their functions

`Value.Related F` relates values of the same shape whose functions are related by `F`. Nothing that looks at a
value without calling it can tell such values apart: they have the same kind, text and truth, they compare alike,
and their parts are related again. Where functions are compared, `F` must be faithful: it relates the same functions to
the same.
-/

namespace RuleLang

section Lists

variable {α β : Type} {R : α → β → Prop}

/-- Lists of one length whose items are related one by one. -/
inductive Paired (R : α → β → Prop) : List α → List β → Prop
  | nil : Paired R [] []
  | cons {a : α} {b : β} {as : List α} {bs : List β} : R a b → Paired R as bs → Paired R (a :: as) (b :: bs)

inductive Bound (R : α → β → Prop) : String × α → String × β → Prop
  | mk {name : String} {a : α} {b : β} : R a b → Bound R (name, a) (name, b)

namespace Paired

variable {as : List α} {bs : List β}

theorem length_eq (h : Paired R as bs) : as.length = bs.length := by
  induction h with
  | nil => rfl
  | cons _ _ ih => rw [List.length_cons, List.length_cons, ih]

theorem mono {S : α → β → Prop} (hRS : ∀ a b, R a b → S a b) (h : Paired R as bs) : Paired S as bs := by
  induction h with
  | nil => exact .nil
  | cons hab _ ih => exact .cons (hRS _ _ hab) ih

theorem exists_of_mem {a : α} (h : Paired R as bs) (ha : a ∈ as) : ∃ b ∈ bs, R a b := by
  induction h with
  | nil => cases ha
  | @cons a' b as bs hab _ ih =>
    rcases List.mem_cons.1 ha with rfl | ha
    · exact ⟨b, List.mem_cons_self .., hab⟩
    · obtain ⟨b', hb', hab'⟩ := ih ha
      exact ⟨b', List.mem_cons_of_mem b hb', hab'⟩

theorem append {as' : List α} {bs' : List β} (h : Paired R as bs) (h' : Paired R as' bs') :
    Paired R (as ++ as') (bs ++ bs') := by
  induction h with
  | nil => exact h'
  | cons hab _ ih => exact .cons hab ih

theorem reverse (h : Paired R as bs) : Paired R as.reverse bs.reverse := by
  induction h with
  | nil => exact .nil
  | cons hab _ ih =>
    rw [List.reverse_cons, List.reverse_cons]
    exact ih.append (.cons hab .nil)

theorem getElem? (h : Paired R as bs) (i : Nat) : Option.Rel R as[i]? bs[i]? := by
  induction h generalizing i with
  | nil => exact .none
  | cons hab _ ih =>
    cases i with
    | zero => exact .some hab
    | succ i => exact ih i

theorem symm {S : β → α → Prop} (h : Paired R as bs) (hRS : ∀ a ∈ as, ∀ b ∈ bs, R a b → S b a) : Paired S bs as := by
  induction h with
  | nil => exact .nil
  | @cons a b as bs hab _ ih =>
    have hba := hRS a (List.mem_cons_self ..) b (List.mem_cons_self ..) hab
    exact .cons hba (ih fun a' ha' b' hb' => hRS a' (List.mem_cons_of_mem a ha') b' (List.mem_cons_of_mem b hb'))

theorem trans {γ : Type} {S : β → γ → Prop} {T : α → γ → Prop} {cs : List γ} (h : Paired R as bs)
    (h' : Paired S bs cs) (hRS : ∀ a ∈ as, ∀ b c, R a b → S b c → T a c) : Paired T as cs := by
  induction h generalizing cs with
  | nil =>
    cases h'
    exact .nil
  | @cons a b as bs hab _ ih =>
    cases h' with
    | cons hbc h' =>
      have hac := hRS a (List.mem_cons_self ..) b _ hab hbc
      exact .cons hac (ih h' fun a' ha' => hRS a' (List.mem_cons_of_mem a ha'))

theorem eq {S : α → α → Prop} {as bs : List α} (h : Paired S as bs) (hS : ∀ a b, S a b → a = b) : as = bs := by
  induction h with
  | nil => rfl
  | cons hab _ ih => rw [hS _ _ hab, ih]

theorem headD {a : α} {b : β} (h : Paired R as bs) (hab : R a b) : R (as.headD a) (bs.headD b) := by
  cases h with
  | nil => exact hab
  | cons h _ => exact h

theorem self {S : α → α → Prop} (h : ∀ a ∈ as, S a a) : Paired S as as := by
  induction as with
  | nil => exact .nil
  | cons a as ih => exact .cons (h a (List.mem_cons_self ..)) (ih fun b hb => h b (List.mem_cons_of_mem a hb))

/-- A list is paired with its image if each item is related to what it is mapped to. -/
theorem map_iff {f : α → β} : Paired R as (as.map f) ↔ ∀ a ∈ as, R a (f a) := by
  induction as with
  | nil => exact ⟨fun _ => nofun, fun _ => .nil⟩
  | cons a as ih =>
    rw [List.forall_mem_cons, ← ih, List.map_cons]
    constructor
    · intro h
      cases h with
      | cons ha h => exact ⟨ha, h⟩
    · exact fun h => .cons h.1 h.2

theorem self_iff {S : α → α → Prop} : Paired S as as ↔ ∀ a ∈ as, S a a := by
  have hmap : Paired S as (as.map id) ↔ ∀ a ∈ as, S a a := map_iff
  rw [List.map_id] at hmap
  exact hmap

end Paired

/-- A name is bound in both lists to related things, or in neither. -/
theorem Entries.get?_related {es : Entries α} {fs : Entries β} (h : Paired (Bound R) es fs) (name : String) :
    Option.Rel R (es.get? name) (fs.get? name) := by
  induction h with
  | nil => exact .none
  | cons hab _ ih =>
    cases hab with
    | @mk key a b hab =>
      rw [Entries.get?, Entries.get?]
      split
      · exact .some hab
      · exact ih

end Lists

/-- Values of the same shape whose functions are related. -/
inductive Value.Related (F : Function → Function → Prop) : Value → Value → Prop
  | null : Related F .null .null
  | boolean (b : Bool) : Related F (.boolean b) (.boolean b)
  | number (x : Float) : Related F (.number x) (.number x)
  | string (s : String) : Related F (.string s) (.string s)
  | list {xs ys : List Value} : Paired (Related F) xs ys → Related F (.list xs) (.list ys)
  | map {es fs : List (String × Value)} : Paired (Bound (Related F)) es fs → Related F (.map es) (.map fs)
  | function {f g : Function} : F f g → Related F (.function f) (.function g)

/-- Two functions have one number exactly if the functions that they are related to have. -/
def Function.Faithful (F : Function → Function → Prop) : Prop :=
  ∀ ⦃f f' g g'⦄, F f f' → F g g' → (f.id = g.id ↔ f'.id = g'.id)

section Faithful

variable {F : Function → Function → Prop}

theorem Function.Faithful.of_id_eq (hid : ∀ f g, F f g → f.id = g.id) : Function.Faithful F := by
  intro f f' g g' hf hg
  rw [hid _ _ hf, hid _ _ hg]

theorem Function.Faithful.beq_eq (hF : Function.Faithful F) {f f' g g' : Function} (hf : F f f') (hg : F g g') :
    (f.id == g.id) = (f'.id == g'.id) := by
  rw [Bool.eq_iff_iff, beq_iff_eq, beq_iff_eq]
  exact hF hf hg

end Faithful

section Equality

mutual

/-- Values whose functions are the same are the same. -/
theorem Value.Related.eq {v w : Value} (h : Value.Related Eq v w) : v = w := by
  match h with
  | .null => rfl
  | .boolean _ => rfl
  | .number _ => rfl
  | .string _ => rfl
  | .list hitems => rw [items_related_eq hitems]
  | .map hentries => rw [entries_related_eq hentries]
  | .function hf => rw [hf]

theorem items_related_eq {xs ys : List Value} (h : Paired (Value.Related Eq) xs ys) : xs = ys := by
  match h with
  | .nil => rfl
  | .cons hvw hitems => rw [hvw.eq, items_related_eq hitems]

theorem entries_related_eq {es fs : List (String × Value)} (h : Paired (Bound (Value.Related Eq)) es fs) :
    es = fs := by
  match h with
  | .nil => rfl
  | .cons (.mk hvw) hentries => rw [hvw.eq, entries_related_eq hentries]

end

mutual

theorem Value.related_refl {F : Function → Function → Prop} (hF : ∀ f, F f f) (v : Value) : Value.Related F v v := by
  match v with
  | .null => exact .null
  | .boolean b => exact .boolean b
  | .number x => exact .number x
  | .string s => exact .string s
  | .list items => exact .list (items_related_refl hF items)
  | .map entries => exact .map (entries_related_refl hF entries)
  | .function f => exact .function (hF f)

theorem items_related_refl {F : Function → Function → Prop} (hF : ∀ f, F f f) (items : List Value) :
    Paired (Value.Related F) items items := by
  match items with
  | [] => exact .nil
  | v :: items => exact .cons (Value.related_refl hF v) (items_related_refl hF items)

theorem entries_related_refl {F : Function → Function → Prop} (hF : ∀ f, F f f) (entries : List (String × Value)) :
    Paired (Bound (Value.Related F)) entries entries := by
  match entries with
  | [] => exact .nil
  | (_, v) :: entries => exact .cons (.mk (Value.related_refl hF v)) (entries_related_refl hF entries)

end

variable {F G : Function → Function → Prop}

mutual

/-- A value is like itself in every way in which its functions are. -/
theorem Value.Related.diagonal (h : ∀ f, F f f → G f f) {v : Value} (hv : Value.Related F v v) :
    Value.Related G v v := by
  match v, hv with
  | .null, _ => exact .null
  | .boolean b, _ => exact .boolean b
  | .number x, _ => exact .number x
  | .string s, _ => exact .string s
  | .list _, .list hitems => exact .list (items_diagonal h hitems)
  | .map _, .map hentries => exact .map (entries_diagonal h hentries)
  | .function f, .function hf => exact .function (h f hf)

theorem items_diagonal (h : ∀ f, F f f → G f f) {items : List Value} (hitems : Paired (Value.Related F) items items) :
    Paired (Value.Related G) items items := by
  match items, hitems with
  | [], _ => exact .nil
  | _ :: _, .cons hv hitems => exact .cons (hv.diagonal h) (items_diagonal h hitems)

theorem entries_diagonal (h : ∀ f, F f f → G f f) {entries : List (String × Value)}
    (hentries : Paired (Bound (Value.Related F)) entries entries) :
    Paired (Bound (Value.Related G)) entries entries := by
  match entries, hentries with
  | [], _ => exact .nil
  | _ :: _, .cons (.mk hv) hentries => exact .cons (.mk (hv.diagonal h)) (entries_diagonal h hentries)

end

end Equality

/-- Outcomes that are the same error or related values. -/
inductive Outcome.Related {ε α β : Type} (R : α → β → Prop) : Except ε α → Except ε β → Prop
  | ok {a : α} {b : β} : R a b → Outcome.Related R (.ok a) (.ok b)
  | error (e : ε) : Outcome.Related R (.error e) (.error e)

theorem Outcome.Related.mono {ε α β : Type} {R S : α → β → Prop} (hRS : ∀ a b, R a b → S a b) {x : Except ε α}
    {y : Except ε β} (h : Outcome.Related R x y) : Outcome.Related S x y := by
  cases h with
  | ok h => exact .ok (hRS _ _ h)
  | error e => exact .error e

theorem Outcome.Related.mapError {ε ε' α β : Type} {R : α → β → Prop} {x : Except ε α} {y : Except ε β}
    (h : Outcome.Related R x y) (f : ε → ε') : Outcome.Related R (x.mapError f) (y.mapError f) := by
  cases h with
  | ok h => exact .ok h
  | error e => exact .error (f e)

theorem Outcome.Related.eq {ε : Type} {x y : Except ε Value} (h : Outcome.Related (Value.Related Eq) x y) :
    x = y := by
  cases h with
  | ok h => rw [h.eq]
  | error e => rfl

/-- Outcomes that are like errors or related values. -/
inductive Outcome.Like {ε α β : Type} (E : ε → ε → Prop) (R : α → β → Prop) : Except ε α → Except ε β → Prop
  | ok {a : α} {b : β} : R a b → Outcome.Like E R (.ok a) (.ok b)
  | error {e e' : ε} : E e e' → Outcome.Like E R (.error e) (.error e')

theorem Outcome.Like.self {ε α : Type} {E : ε → ε → Prop} {R : α → α → Prop} (hE : ∀ e, E e e) (hR : ∀ a, R a a)
    (x : Except ε α) : Outcome.Like E R x x := by
  cases x with
  | ok a => exact .ok (hR a)
  | error e => exact .error (hE e)

theorem Outcome.Like.mono {ε α β : Type} {E : ε → ε → Prop} {R S : α → β → Prop} (hRS : ∀ a b, R a b → S a b)
    {x : Except ε α} {y : Except ε β} (h : Outcome.Like E R x y) : Outcome.Like E S x y := by
  cases h with
  | ok h => exact .ok (hRS _ _ h)
  | error he => exact .error he

theorem Outcome.Like.eq {ε α : Type} {x y : Except ε α} (h : Outcome.Like Eq Eq x y) : x = y := by
  cases h with
  | ok h => rw [h]
  | error h => rw [h]

/-- Outcomes whose errors are the same are related. -/
theorem Outcome.related_iff_like {ε α β : Type} {R : α → β → Prop} {x : Except ε α} {y : Except ε β} :
    Outcome.Related R x y ↔ Outcome.Like Eq R x y := by
  constructor
  · intro h
    cases h with
    | ok h => exact .ok h
    | error e => exact .error rfl
  · intro h
    cases h with
    | ok h => exact .ok h
    | error he =>
      cases he
      exact .error _

namespace Value.Related

variable {F : Function → Function → Prop} {v v' w w' : Value}

theorem kind_eq (h : Related F v w) : v.kind = w.kind := by
  cases h <;> rfl

theorem truthy_eq (h : Related F v w) : v.truthy = w.truthy := by
  cases h with
  | list h => cases h <;> rfl
  | map h => cases h <;> rfl
  | _ => rfl

theorem toNumber?_eq (h : Related F v w) : v.toNumber? = w.toNumber? := by
  cases h <;> rfl

theorem index?_eq (h : Related F v w) : v.index? = w.index? := by
  cases h <;> rfl

theorem property? (h : Related F v w) (name : String) :
    Option.Rel (Related F) (v.property? name) (w.property? name) := by
  cases h with
  | map h => exact Entries.get?_related h name
  | _ => exact .none

theorem item? (h : Related F v w) (hi : Related F v' w') :
    Option.Rel (Related F) (v.item? v') (w.item? w') := by
  cases h with
  | list h =>
    rw [Value.item?, Value.item?, hi.index?_eq]
    cases w'.index? with
    | none => exact .none
    | some i => exact h.getElem? i
  | _ => exact .none

theorem order_eq (h : Related F v w) (h' : Related F v' w') : v.order v' = w.order w' := by
  cases h <;> cases h' <;> rfl

mutual

/-- Functions have no form in JSON. -/
theorem toJson_eq {v w : Value} (h : Related F v w) : v.toJson = w.toJson := by
  match h with
  | .null => rfl
  | .boolean _ => rfl
  | .number _ => rfl
  | .string _ => rfl
  | .list h => rw [toJson, toJson, itemsToJson_eq h]
  | .map h => rw [toJson, toJson, entriesToJson_eq h]
  | .function _ => rw [toJson, toJson]

theorem itemsToJson_eq {xs ys : List Value} (h : Paired (Related F) xs ys) : itemsToJson xs = itemsToJson ys := by
  match h with
  | .nil => rfl
  | .cons hv h => rw [itemsToJson, itemsToJson, toJson_eq hv, itemsToJson_eq h]

theorem entriesToJson_eq {es fs : List (String × Value)} (h : Paired (Bound (Related F)) es fs) :
    entriesToJson es = entriesToJson fs := by
  match h with
  | .nil => rfl
  | .cons (.mk hv) h => rw [entriesToJson, entriesToJson, toJson_eq hv, entriesToJson_eq h]

end

theorem text_eq (h : Related F v w) : v.text = w.text := by
  cases h with
  | list h => rw [Value.text, Value.text, toJson_eq (.list h)]
  | map h => rw [Value.text, Value.text, toJson_eq (.map h)]
  | _ => rfl

mutual

/-- Values that differ in functions with the same numbers are equal to the same values. -/
theorem same_eq (hF : Function.Faithful F) {v w v' w' : Value} (h : Related F v w) (h' : Related F v' w') :
    v.same v' = w.same w' := by
  match h with
  | .null => cases h' <;> simp only [same]
  | .boolean _ => cases h' <;> simp only [same]
  | .number _ => cases h' <;> simp only [same]
  | .string _ => cases h' <;> simp only [same]
  | .list h =>
    cases h' with
    | list h' => simp only [same, sameItems_eq hF h h']
    | _ => simp only [same]
  | .map h =>
    cases h' with
    | map h' => simp only [same, h.length_eq, h'.length_eq, includedIn_eq hF h h']
    | _ => simp only [same]
  | .function h =>
    cases h' with
    | function h' => simp only [same, hF.beq_eq h h']
    | _ => simp only [same]

theorem sameItems_eq (hF : Function.Faithful F) {xs ys xs' ys' : List Value}
    (h : Paired (Related F) xs ys) (h' : Paired (Related F) xs' ys') : sameItems xs xs' = sameItems ys ys' := by
  match h with
  | .nil => cases h' <;> simp only [sameItems]
  | .cons hv h =>
    cases h' with
    | nil => simp only [sameItems]
    | cons hv' h' => simp only [sameItems, same_eq hF hv hv', sameItems_eq hF h h']

theorem includedIn_eq (hF : Function.Faithful F) {es fs es' fs' : List (String × Value)}
    (h : Paired (Bound (Related F)) es fs) (h' : Paired (Bound (Related F)) es' fs') :
    includedIn es es' = includedIn fs fs' := by
  match h with
  | .nil => simp only [includedIn]
  | .cons (@Bound.mk _ _ _ name _ _ hv) h =>
    have hrest := includedIn_eq hF h h'
    have hfound := Entries.get?_related h' name
    have hsame := fun v w (h' : Related F v w) => same_eq hF hv h'
    rw [includedIn, includedIn, hrest]
    generalize Entries.get? name es' = a at hfound
    generalize Entries.get? name fs' = b at hfound
    cases hfound with
    | none => rfl
    | some h' => simp only [hsame _ _ h']

end

end Value.Related

section Operators

variable {F : Function → Function → Prop} {v v' w w' : Value}

/-- The same error, that of values of the wrong kind. -/
def EvalError.Mismatch (e e' : EvalError) : Prop :=
  e = e' ∧ e.kind = .typeMismatch

theorem UnaryOp.apply_related (op : UnaryOp) (h : Value.Related F v w) :
    Outcome.Like EvalError.Mismatch (Value.Related F) (op.apply v) (op.apply w) := by
  cases op with
  | neg =>
    cases h with
    | number x => exact .ok (.number _)
    | _ => exact .error ⟨rfl, rfl⟩
  | not =>
    rw [UnaryOp.apply, UnaryOp.apply, h.truthy_eq]
    exact .ok (.boolean _)

theorem BinaryOp.holds_eq (hF : Function.Faithful F) (op : BinaryOp) (h : Value.Related F v w)
    (h' : Value.Related F v' w') : op.holds v v' = op.holds w w' := by
  have hloose : v.looseEquals v' = w.looseEquals w' := by
    have hsame := h.same_eq hF h'
    cases h <;> cases h' <;> first | rfl | exact hsame
  have hstrict : v.strictEquals v' = w.strictEquals w' := by
    rw [Value.strictEquals, Value.strictEquals, h.kind_eq, h'.kind_eq, h.same_eq hF h']
  cases op <;> simp only [BinaryOp.holds, h.truthy_eq, h'.truthy_eq, h.order_eq h', hloose, hstrict]

theorem BinaryOp.apply_related (hF : Function.Faithful F) (op : BinaryOp) (h : Value.Related F v w)
    (h' : Value.Related F v' w') :
    Outcome.Like EvalError.Mismatch (Value.Related F) (op.apply v v') (op.apply w w') := by
  rw [BinaryOp.apply, BinaryOp.apply, op.holds_eq hF h h']
  split
  · exact .ok (.boolean _)
  · cases h with
    | number x =>
      cases h' with
      | number y => exact .ok (.number _)
      | _ => exact .error ⟨rfl, rfl⟩
    | _ => cases h' <;> exact .error ⟨rfl, rfl⟩

end Operators

end RuleLang
