import RuleLang.Proofs.Value.Related

/-!
# The functions in a value

A value holds functions in itself, in its items or in its entries, however deep. What closures have captured is not
counted in. Values that are related by a relation that leaves every function as it is are the same value, and the
relation holds of all functions in it.
-/

namespace RuleLang

mutual

/-- The functions that a value is or has among its items or entries. -/
def Value.functions : Value → List Function
  | .null | .boolean _ | .number _ | .string _ => []
  | .list items => Value.functionsOfItems items
  | .map entries => Value.functionsOfEntries entries
  | .function f => [f]

def Value.functionsOfItems : List Value → List Function
  | [] => []
  | v :: items => v.functions ++ Value.functionsOfItems items

def Value.functionsOfEntries : List (String × Value) → List Function
  | [] => []
  | (_, v) :: entries => v.functions ++ Value.functionsOfEntries entries

end

theorem Value.functions_of_mem_items {v : Value} {items : List Value} (h : v ∈ items) :
    v.functions ⊆ Value.functionsOfItems items := by
  induction h with
  | head => exact List.subset_append_left ..
  | tail _ _ ih => exact List.subset_append_of_subset_right _ ih

theorem Value.functions_of_mem_entries {name : String} {v : Value} {entries : List (String × Value)}
    (h : (name, v) ∈ entries) : v.functions ⊆ Value.functionsOfEntries entries := by
  induction entries with
  | nil => cases h
  | cons entry entries ih =>
    rcases List.mem_cons.1 h with rfl | h
    · exact List.subset_append_left ..
    · exact List.subset_append_of_subset_right _ (ih h)

/-- The same function, and one of a given kind. -/
def Function.Only (P : Function → Prop) (f g : Function) : Prop :=
  f = g ∧ P f

section Only

variable {P : Function → Prop}

mutual

/-- A value is related to itself if all functions in it are. -/
theorem Value.related_of_functions {v : Value} (h : ∀ f ∈ v.functions, P f) :
    Value.Related (Function.Only P) v v := by
  match v with
  | .null => exact .null
  | .boolean b => exact .boolean b
  | .number x => exact .number x
  | .string s => exact .string s
  | .list items => exact .list (items_related_of_functions h)
  | .map entries => exact .map (entries_related_of_functions h)
  | .function f => exact .function ⟨rfl, h f (List.mem_singleton_self f)⟩

theorem items_related_of_functions {items : List Value} (h : ∀ f ∈ Value.functionsOfItems items, P f) :
    Paired (Value.Related (Function.Only P)) items items := by
  match items with
  | [] => exact .nil
  | v :: items =>
    rw [Value.functionsOfItems, List.forall_mem_append] at h
    exact .cons (Value.related_of_functions h.1) (items_related_of_functions h.2)

theorem entries_related_of_functions {entries : List (String × Value)}
    (h : ∀ f ∈ Value.functionsOfEntries entries, P f) :
    Paired (Bound (Value.Related (Function.Only P))) entries entries := by
  match entries with
  | [] => exact .nil
  | (_, v) :: entries =>
    rw [Value.functionsOfEntries, List.forall_mem_append] at h
    exact .cons (.mk (Value.related_of_functions h.1)) (entries_related_of_functions h.2)

end

mutual

theorem Value.Related.only {v w : Value} (h : Value.Related (Function.Only P) v w) :
    v = w ∧ ∀ f ∈ v.functions, P f := by
  match h with
  | .null => exact ⟨rfl, nofun⟩
  | .boolean _ => exact ⟨rfl, nofun⟩
  | .number _ => exact ⟨rfl, nofun⟩
  | .string _ => exact ⟨rfl, nofun⟩
  | .list hitems =>
    obtain ⟨rfl, hfunctions⟩ := items_related_only hitems
    exact ⟨rfl, hfunctions⟩
  | .map hentries =>
    obtain ⟨rfl, hfunctions⟩ := entries_related_only hentries
    exact ⟨rfl, hfunctions⟩
  | .function hf =>
    obtain ⟨rfl, hf⟩ := hf
    exact ⟨rfl, List.forall_mem_singleton.2 hf⟩

theorem items_related_only {xs ys : List Value} (h : Paired (Value.Related (Function.Only P)) xs ys) :
    xs = ys ∧ ∀ f ∈ Value.functionsOfItems xs, P f := by
  match h with
  | .nil => exact ⟨rfl, nofun⟩
  | .cons hv hitems =>
    obtain ⟨rfl, hfirst⟩ := hv.only
    obtain ⟨rfl, hrest⟩ := items_related_only hitems
    exact ⟨rfl, List.forall_mem_append.2 ⟨hfirst, hrest⟩⟩

theorem entries_related_only {es fs : List (String × Value)}
    (h : Paired (Bound (Value.Related (Function.Only P))) es fs) :
    es = fs ∧ ∀ f ∈ Value.functionsOfEntries es, P f := by
  match h with
  | .nil => exact ⟨rfl, nofun⟩
  | .cons (.mk hv) hentries =>
    obtain ⟨rfl, hfirst⟩ := hv.only
    obtain ⟨rfl, hrest⟩ := entries_related_only hentries
    exact ⟨rfl, List.forall_mem_append.2 ⟨hfirst, hrest⟩⟩

end

/-- What is known of an outcome that is like another one, all functions being of a kind. -/
theorem Outcome.Like.only {ε : Type} {E : ε → ε → Prop} {o o' : Except ε Value}
    (h : Outcome.Like E (Value.Related (Function.Only P)) o o') :
    (∀ e, o = .error e → ∃ e', E e e') ∧ ∀ v, o = .ok v → ∀ f ∈ v.functions, P f := by
  cases h with
  | ok hv =>
    refine ⟨nofun, fun v ho => ?_⟩
    cases ho
    exact hv.only.2
  | error he =>
    refine ⟨fun e ho => ?_, nofun⟩
    cases ho
    exact ⟨_, he⟩

end Only

end RuleLang
