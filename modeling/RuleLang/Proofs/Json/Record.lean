import RuleLang.Proofs.Entries
import RuleLang.Json.Record

/-!
# Changes to a record in JSON

A record is read through its fields alone. What a change does to a field decides what is read: a member under an
unknown name does nothing to any, leaving out a field makes room for its default if it has one, and a field that is null
stands in the way of it.
-/

namespace RuleLang

section Erase

variable {α : Type}

/-- The entries without those of a name. -/
def Entries.erase (name : String) (es : Entries α) : Entries α :=
  es.filter fun entry => entry.1 ≠ name

theorem Entries.get?_erase (name : String) (es : Entries α) (key : String) :
    (es.erase name).get? key = if name = key then none else es.get? key := by
  induction es with
  | nil =>
    split
    · rfl
    · rfl
  | cons entry rest ih =>
    obtain ⟨first, value⟩ := entry
    unfold erase at ih ⊢
    by_cases hfirst : first = name
    · subst hfirst
      rw [List.filter_cons_of_neg (by simp), ih]
      split
      · rfl
      · next hkey => rw [get?, if_neg hkey]
    · rw [List.filter_cons_of_pos (by simpa using hfirst), get?, get?, ih]
      split
      · next hkey => rw [if_neg (hkey ▸ Ne.symm hfirst)]
      · rfl

end Erase

namespace Json

/-- Changes to a record that say nothing new: a member comes in under a name that is no field, at any place, or a field
that holds its default is left out. -/
inductive Respells (fields : List String) (default : String → Json → Prop) : Json → Json → Prop
  | unknown (front back : Entries Json) {name : String} (j : Json) : name ∉ fields →
      Respells fields default (.object (front ++ back)) (.object (front ++ (name, j) :: back))
  | omitted {members : Entries Json} {name : String} {j : Json} : members.get? name = some j → default name j →
      Respells fields default (.object members) (.object (members.erase name))

/-- A field becomes null, whether it was there before or not. -/
inductive Nulls (fields : List String) : Json → Json → Prop
  | member {members : Entries Json} {name : String} : name ∈ fields →
      Nulls fields (.object members) (.object (members.insert name .null))
  | item {items : List Json} {place : Nat} : place < fields.length → place < items.length →
      Nulls fields (.array items) (.array (items.set place .null))

/-- A field is left out. In an array the fields behind it move up, and the last one is missing. -/
inductive Loses (fields : List String) : Json → Json → Prop
  | member {members : Entries Json} {name : String} : name ∈ fields →
      Loses fields (.object members) (.object (members.erase name))
  | item {items : List Json} {place : Nat} : place < items.length → items.length ≤ fields.length →
      Loses fields (.array items) (.array (items.eraseIdx place))

/-- A change in the value of one member of an object. -/
inductive Within (name : String) (R : Json → Json → Prop) : Json → Json → Prop
  | mk {members : Entries Json} {j j' : Json} : members.get? name = some j → R j j' →
      Within name R (.object members) (.object (members.insert name j'))

/-- A change in one item of an array. -/
inductive InItem (R : Json → Json → Prop) : Json → Json → Prop
  | mk (front back : List Json) {j j' : Json} : R j j' →
      InItem R (.array (front ++ j :: back)) (.array (front ++ j' :: back))

section Changes

variable {α : Type} {fields : List String} {default : String → Json → Prop} {R : Json → Json → Prop} {j j' k : Json}
  {name : String} {place : Nat} {d : α} {read : Json → Option α}

theorem fieldOr_of_field? (h : j.field? place name = some k) : j.fieldOr d read place name = read k := by
  rw [fieldOr, h]

theorem Respells.isRecord (h : Respells fields default j j') (size : Nat) : j'.isRecord size = j.isRecord size := by
  cases h with
  | unknown => rfl
  | omitted => rfl

/-- A field is as it was, or it held its default and is missing now. -/
theorem Respells.field? (h : Respells fields default j j') (hname : name ∈ fields) (place : Nat) :
    j'.field? place name = j.field? place name ∨
      ∃ k, default name k ∧ j.field? place name = some k ∧ j'.field? place name = none := by
  cases h with
  | @unknown front back other _ hother =>
    have hne : other ≠ name := fun heq => hother (heq ▸ hname)
    refine .inl ?_
    rw [Json.field?, Json.field?, Entries.get?_append, Entries.get?_append, Entries.get?, if_neg hne]
  | @omitted members other k hget hdefault =>
    rw [Json.field?, Json.field?, Entries.get?_erase]
    by_cases hne : other = name
    · subst hne
      exact .inr ⟨k, hdefault, hget, if_pos rfl⟩
    · exact .inl (if_neg hne)

theorem Respells.fieldOr (h : Respells fields default j j') (hname : name ∈ fields)
    (hdefault : ∀ k, default name k → read k = some d) (place : Nat) :
    j'.fieldOr d read place name = j.fieldOr d read place name := by
  rcases h.field? hname place with hfield | ⟨k, hk, hfield, hfield'⟩
  · rw [Json.fieldOr, Json.fieldOr, hfield]
  · rw [Json.fieldOr, Json.fieldOr, hfield, hfield']
    exact (hdefault k hk).symm

theorem Respells.readField? (h : Respells fields default j j') (hname : name ∈ fields)
    (hdefault : ∀ k, ¬default name k) (place : Nat) :
    j'.readField? read place name = j.readField? read place name := by
  rcases h.field? hname place with hfield | ⟨k, hk, -⟩
  · rw [Json.readField?, Json.readField?, hfield]
  · exact absurd hk (hdefault k)

theorem Nulls.field? (h : Nulls fields j j') :
    ∃ place name, fields[place]? = some name ∧ j'.field? place name = some .null := by
  cases h with
  | @member members name hname =>
    obtain ⟨place, hplace⟩ := List.getElem?_of_mem hname
    refine ⟨place, name, hplace, ?_⟩
    rw [Json.field?, Entries.get?_insert, if_pos rfl]
  | @item items place hfields hitems =>
    refine ⟨place, fields[place], List.getElem?_eq_getElem hfields, ?_⟩
    rw [Json.field?, List.getElem?_set_self hitems]

theorem Loses.field? (h : Loses fields j j') :
    ∃ place name, fields[place]? = some name ∧ j'.field? place name = none := by
  cases h with
  | @member members name hname =>
    obtain ⟨place, hplace⟩ := List.getElem?_of_mem hname
    refine ⟨place, name, hplace, ?_⟩
    rw [Json.field?, Entries.get?_erase, if_pos rfl]
  | @item items place hitems hfields =>
    have hlast : fields.length - 1 < fields.length := by omega
    refine ⟨_, fields[fields.length - 1], List.getElem?_eq_getElem hlast, ?_⟩
    rw [Json.field?, List.getElem?_eq_none_iff, List.length_eraseIdx_of_lt hitems]
    omega

theorem Within.isRecord (h : Within name R j j') (size : Nat) : j'.isRecord size = j.isRecord size := by
  cases h
  rfl

theorem Within.field? (h : Within name R j j') (place : Nat) :
    ∃ k k', R k k' ∧ j.field? place name = some k ∧ j'.field? place name = some k' := by
  cases h with
  | @mk members k k' hget hR =>
    refine ⟨k, k', hR, hget, ?_⟩
    rw [Json.field?, Entries.get?_insert, if_pos rfl]

theorem Within.fieldOr (h : Within name R j j') (hR : ∀ k k', R k k' → read k' = read k) (place : Nat) :
    j'.fieldOr d read place name = j.fieldOr d read place name := by
  obtain ⟨k, k', hk, hfield, hfield'⟩ := h.field? place
  rw [fieldOr_of_field? hfield, fieldOr_of_field? hfield', hR k k' hk]

theorem Within.fieldOr_eq_none (h : Within name R j j') (hR : ∀ k k', R k k' → read k' = none) (place : Nat) :
    j'.fieldOr d read place name = none := by
  obtain ⟨k, k', hk, -, hfield⟩ := h.field? place
  exact (fieldOr_of_field? hfield).trans (hR k k' hk)

theorem Within.fieldOr_of_ne (h : Within name R j j') {other : String} (hne : name ≠ other) (place : Nat) :
    j'.fieldOr d read place other = j.fieldOr d read place other := by
  cases h
  rw [Json.fieldOr, Json.fieldOr, Json.field?, Json.field?, Entries.get?_insert, if_neg hne]

end Changes

end Json

end RuleLang
