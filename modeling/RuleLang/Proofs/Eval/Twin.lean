import RuleLang.Proofs.Eval.FreeNames
import RuleLang.Proofs.Eval.Later

/-!
# Runs that see different scopes at different times

An expression is evaluated twice in one evaluation, in scopes that agree on its free names, and the second time when
more functions have been made. The second run ends as the first does, and puts twins in the place of the functions
that the first makes: they have other numbers, and they have captured other values for names that they do not use.
-/

namespace RuleLang

/--
The same function up to its number, which is higher by `shift` from `first` on, and up to what the scope of a closure
binds other than the free names of its body.
-/
inductive Function.Twin (first shift : Nat) : Function → Function → Prop
  | host {id id' : Nat} (behaviour : HostFunction) :
      Shifted first shift id id' → Twin first shift (.host id behaviour) (.host id' behaviour)
  | closure {id id' k : Nat} {param : String} {body : Expr} {scope scope' : List (String × Value)} :
      Shifted first shift id id' →
      (∀ name ∈ body.freeNames, name ≠ param →
        Option.Rel (Value.Related (Twin first shift)) (Entries.get? name scope) (Entries.get? name scope')) →
      Twin first shift (.closure id k param body scope) (.closure id' k param body scope')

section Twin

variable {first shift : Nat} {r : Registry}

theorem Function.Twin.id_shifted {f g : Function} (h : Function.Twin first shift f g) :
    Shifted first shift f.id g.id := by
  cases h <;> assumption

theorem Function.Twin.faithful : Function.Faithful (Function.Twin first shift) :=
  fun _ _ _ _ hf hg => Shifted.unique hf.id_shifted hg.id_shifted

/-- Known functions keep their numbers when higher ones move. -/
theorem Function.KnownTo.twin {f : Function} (h : f.KnownTo r) (shift : Nat) :
    Function.Twin r.functions shift f f := by
  induction h with
  | host behaviour hid => exact .host behaviour (.inl ⟨hid, rfl⟩)
  | closure param body hid _ _ ih =>
    refine .closure (.inl ⟨hid, rfl⟩) fun name _ _ => ?_
    exact Entries.get?_related (entries_diagonal (fun _ hf => hf.2) (entries_related_of_functions ih)) name

theorem Context.KnownTo.twin {c : Context} (h : c.KnownTo r) (shift : Nat) (name : String) :
    Option.Rel (Value.Related (Function.Twin r.functions shift)) (c.get? name) (c.get? name) :=
  have hentries := entries_related_of_functions fun f hf => (h f hf).twin shift
  Entries.get?_related (entries_diagonal (fun _ hf => hf.2) hentries) name

/-- Places are alike for an expression if they are in one evaluation and the scopes bind its free names to values that
differ in twins only. -/
def Likeness.twin (first shift : Nat) : Likeness Eq Eq first shift where
  function := Function.Twin first shift
  place k k' scope scope' e e' := e = e' ∧ k = k' ∧ ∀ name ∈ e.freeNames,
    Option.Rel (Value.Related (Function.Twin first shift)) (scope.lookup name) (scope'.lookup name)
  mismatch _ := rfl
  depthExceeded _ := rfl
  faithful := Function.Twin.faithful
  host h := by
    cases h
    exact ⟨_, rfl⟩
  closure h := by
    cases h with
    | closure _ hscope =>
      exact ⟨_, _, _, _, _, rfl, fun _ _ hab => ⟨rfl, rfl, Scope.lookup_bind_rel hscope hab⟩⟩
  newHost _ _ hid behaviour := .host behaviour (.inr ⟨hid, rfl⟩)
  newClosure := by
    intro id hid k k' scope scope' param param' body body' h
    obtain ⟨he, rfl, hscope⟩ := h
    cases he
    exact .closure (.inr ⟨hid, rfl⟩) fun name hfree hparam => hscope name (Expr.mem_freeNames_lambda hfree hparam)
  evaluation h := h.2.1
  corresponds := by
    intro k k' scope scope' e e' h
    obtain ⟨rfl, rfl, hscope⟩ := h
    exact .of_freeNames hscope fun x hx => ⟨rfl, rfl, hx⟩

theorem Hosts.Blind.admits_twin {hosts : Hosts} (h : hosts.Blind r) (shift : Nat) :
    (Likeness.twin r.functions shift).Admits False hosts where
  like hfg := h _ Function.Twin.faithful (fun _ hf => hf.twin shift) _ _ _ hfg
  returnErrors := False.elim

end Twin

end RuleLang
