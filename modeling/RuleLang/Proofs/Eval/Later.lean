import Mathlib.Logic.Relation
import RuleLang.Proofs.Eval.Outcome
import RuleLang.Proofs.Value.Functions

/-!
# Runs in a later registry

A context outlives the evaluations that use it. When more of them have been started and more functions have been made,
an expression still has the outcome that it had before: the numbers of the functions that it makes and of its own
evaluation are higher, and nothing can tell. The context may hold closures of earlier evaluations, and host functions
of any kind, as long as these do not tell functions apart by their numbers either.
-/

namespace RuleLang

/--
Functions that there are by now: their numbers have been given to functions, those of the evaluations that closures
belong to have been given to evaluations, and all that they have captured is known.
-/
inductive Function.KnownTo (r : Registry) : Function → Prop
  | host {id : Nat} (behaviour : HostFunction) : id < r.functions → KnownTo r (.host id behaviour)
  | closure {id k : Nat} (param : String) (body : Expr) {scope : List (String × Value)} :
      id < r.functions → k < r.evaluations.length → (∀ f ∈ Value.functionsOfEntries scope, KnownTo r f) →
      KnownTo r (.closure id k param body scope)

/-- Contexts whose functions are all known. -/
def Context.KnownTo (r : Registry) (c : Context) : Prop :=
  ∀ f ∈ Value.functionsOfEntries c.entries, f.KnownTo r

/-- A registry at a later time: evaluations have been added, and functions have been made. -/
structure Registry.Later (r r' : Registry) : Prop where
  grows : r.Extends r'
  functions_le : r.functions ≤ r'.functions

/-- The numbers below `first` as they are, and those from there on higher by `shift`. -/
def Shifted (first shift i j : Nat) : Prop :=
  (i < first ∧ j = i) ∨ (first ≤ i ∧ j = i + shift)

theorem Shifted.unique {first shift i j k l : Nat} (hij : Shifted first shift i j) (hkl : Shifted first shift k l) :
    i = k ↔ j = l := by
  rw [Shifted] at hij hkl
  omega

/-- Functions that are the same up to their numbers and those of the evaluations that they belong to. -/
inductive Function.Reissued (ι ρ : Nat → Nat → Prop) : Function → Function → Prop
  | host {id id' : Nat} (behaviour : HostFunction) :
      ι id id' → Reissued ι ρ (.host id behaviour) (.host id' behaviour)
  | closure {id id' k k' : Nat} (param : String) (body : Expr) {scope scope' : List (String × Value)} :
      ι id id' → ρ k k' → Paired (Bound (Value.Related (Reissued ι ρ))) scope scope' →
      Reissued ι ρ (.closure id k param body scope) (.closure id' k' param body scope')

/-- Scopes that bind the same names to values that are the same up to these numbers. -/
abbrev Scope.Reissued (ι ρ : Nat → Nat → Prop) : Scope → Scope → Prop :=
  Paired (Bound (Value.Related (Function.Reissued ι ρ)))

/-- Other numbers for functions and evaluations, different ones for different ones. What is known keeps its own. -/
structure Registry.Reissues (r : Registry) (ι ρ : Nat → Nat → Prop) : Prop where
  functions : ∀ i < r.functions, ι i i
  functions_unique : ∀ {i j k l}, ι i j → ι k l → (i = k ↔ j = l)
  evaluations : ∀ k < r.evaluations.length, ρ k k
  evaluations_unique : ∀ {i j k l}, ρ i j → ρ k l → (i = k ↔ j = l)

/-- Values that are the same but for the numbers that functions and evaluations not in `r` have been given. -/
def Value.AlikeSince (r : Registry) (v w : Value) : Prop :=
  ∃ ι ρ, r.Reissues ι ρ ∧ Value.Related (Function.Reissued ι ρ) v w

section Reissue

variable {ι ρ : Nat → Nat → Prop} {first shift : Nat} {r : Registry}

theorem Function.Reissued.id_related {f g : Function} (h : Function.Reissued ι ρ f g) : ι f.id g.id := by
  cases h <;> assumption

theorem Function.Reissued.faithful (hι : ∀ {i j k l}, ι i j → ι k l → (i = k ↔ j = l)) :
    Function.Faithful (Function.Reissued ι ρ) :=
  fun _ _ _ _ hf hg => hι hf.id_related hg.id_related

/-- Known functions keep their numbers when higher ones move. -/
theorem Function.KnownTo.reissued {f : Function} (h : f.KnownTo r) (shift shift' : Nat) :
    Function.Reissued (Shifted r.functions shift) (Shifted r.evaluations.length shift') f f := by
  induction h with
  | host behaviour hid => exact .host behaviour (.inl ⟨hid, rfl⟩)
  | closure param body hid hk _ ih =>
    refine .closure param body (.inl ⟨hid, rfl⟩) (.inl ⟨hk, rfl⟩) ?_
    exact entries_diagonal (fun _ hf => hf.2) (entries_related_of_functions ih)

theorem Registry.reissues_shifted (r : Registry) (shift shift' : Nat) :
    r.Reissues (Shifted r.functions shift) (Shifted r.evaluations.length shift') where
  functions _ hi := .inl ⟨hi, rfl⟩
  functions_unique := Shifted.unique
  evaluations _ hk := .inl ⟨hk, rfl⟩
  evaluations_unique := Shifted.unique

theorem Context.KnownTo.reissued {c : Context} (h : c.KnownTo r) (shift shift' : Nat) :
    Scope.Reissued (Shifted r.functions shift) (Shifted r.evaluations.length shift') c.scope c.scope :=
  entries_diagonal (fun _ hf => hf.2) (entries_related_of_functions fun f hf => (h f hf).reissued shift shift')

/-- Places are alike for an expression if the scopes are, up to the numbers. -/
def Likeness.reissued (ρ : Nat → Nat → Prop) (first shift : Nat) : Likeness Eq ρ first shift where
  function := Function.Reissued (Shifted first shift) ρ
  place k k' scope scope' e e' := e = e' ∧ ρ k k' ∧ Scope.Reissued (Shifted first shift) ρ scope scope'
  mismatch _ := rfl
  depthExceeded _ := rfl
  faithful := Function.Reissued.faithful Shifted.unique
  host h := by
    cases h
    exact ⟨_, rfl⟩
  closure h := by
    cases h with
    | closure _ _ _ hk hscope => exact ⟨_, _, _, _, _, rfl, fun _ _ hab => ⟨rfl, hk, .cons (.mk hab) hscope⟩⟩
  newHost _ _ hid behaviour := .host behaviour (.inr ⟨hid, rfl⟩)
  newClosure := by
    intro id hid k k' scope scope' param param' body body' h
    obtain ⟨he, hk, hscope⟩ := h
    cases he
    exact .closure param body (.inr ⟨hid, rfl⟩) hk hscope
  evaluation h := h.2.1
  corresponds := by
    intro k k' scope scope' e e' h
    obtain ⟨rfl, hk, hscope⟩ := h
    exact .of_looksUp (fun _ => rfl) (fun name _ => Entries.get?_related hscope name) fun _ _ => ⟨rfl, hk, hscope⟩

end Reissue

section Alike

variable {ι ι' ρ ρ' : Nat → Nat → Prop} {r : Registry}

/-! What is twice the same as a third thing up to numbers is the same up to numbers. -/

mutual

theorem Value.reissued_span {u v w : Value} (hv : Value.Related (Function.Reissued ι ρ) u v)
    (hw : Value.Related (Function.Reissued ι' ρ') u w) :
    Value.Related (Function.Reissued (Relation.Comp (flip ι) ι') (Relation.Comp (flip ρ) ρ')) v w := by
  match u, hv, hw with
  | .null, .null, .null => exact .null
  | .boolean b, .boolean _, .boolean _ => exact .boolean b
  | .number x, .number _, .number _ => exact .number x
  | .string s, .string _, .string _ => exact .string s
  | .list _, .list hv, .list hw => exact .list (items_reissued_span hv hw)
  | .map _, .map hv, .map hw => exact .map (entries_reissued_span hv hw)
  | .function _, .function hv, .function hw => exact .function (Function.reissued_span hv hw)

theorem Function.reissued_span {f g h : Function} (hg : Function.Reissued ι ρ f g)
    (hh : Function.Reissued ι' ρ' f h) :
    Function.Reissued (Relation.Comp (flip ι) ι') (Relation.Comp (flip ρ) ρ') g h := by
  match f, hg, hh with
  | .host _ behaviour, .host _ hid, .host _ hid' => exact .host behaviour ⟨_, hid, hid'⟩
  | .closure _ _ param body _, .closure _ _ hid hk hg, .closure _ _ hid' hk' hh =>
    exact .closure param body ⟨_, hid, hid'⟩ ⟨_, hk, hk'⟩ (entries_reissued_span hg hh)

theorem items_reissued_span {us vs ws : List Value} (hv : Paired (Value.Related (Function.Reissued ι ρ)) us vs)
    (hw : Paired (Value.Related (Function.Reissued ι' ρ')) us ws) :
    Paired (Value.Related (Function.Reissued (Relation.Comp (flip ι) ι') (Relation.Comp (flip ρ) ρ'))) vs ws := by
  match us, hv, hw with
  | [], .nil, .nil => exact .nil
  | _ :: _, .cons hv hvs, .cons hw hws => exact .cons (Value.reissued_span hv hw) (items_reissued_span hvs hws)

theorem entries_reissued_span {us vs ws : Scope} (hv : Scope.Reissued ι ρ us vs) (hw : Scope.Reissued ι' ρ' us ws) :
    Scope.Reissued (Relation.Comp (flip ι) ι') (Relation.Comp (flip ρ) ρ') vs ws := by
  match us, hv, hw with
  | [], .nil, .nil => exact .nil
  | (_, _) :: _, .cons (.mk hv) hvs, .cons (.mk hw) hws =>
    exact .cons (.mk (Value.reissued_span hv hw)) (entries_reissued_span hvs hws)

end

theorem Registry.Reissues.span (h : r.Reissues ι ρ) (h' : r.Reissues ι' ρ') :
    r.Reissues (Relation.Comp (flip ι) ι') (Relation.Comp (flip ρ) ρ') where
  functions i hi := ⟨i, h.functions i hi, h'.functions i hi⟩
  functions_unique := by
    intro i j k l hij hkl
    obtain ⟨a, hi, hj⟩ := hij
    obtain ⟨b, hk, hl⟩ := hkl
    exact (h.functions_unique hi hk).symm.trans (h'.functions_unique hj hl)
  evaluations k hk := ⟨k, h.evaluations k hk, h'.evaluations k hk⟩
  evaluations_unique := by
    intro i j k l hij hkl
    obtain ⟨a, hi, hj⟩ := hij
    obtain ⟨b, hk, hl⟩ := hkl
    exact (h.evaluations_unique hi hk).symm.trans (h'.evaluations_unique hj hl)

theorem Value.AlikeSince.span {u v w : Value} (hv : u.AlikeSince r v) (hw : u.AlikeSince r w) : v.AlikeSince r w := by
  obtain ⟨ι, ρ, hreissues, hv⟩ := hv
  obtain ⟨ι', ρ', hreissues', hw⟩ := hw
  exact ⟨_, _, hreissues.span hreissues', Value.reissued_span hv hw⟩

end Alike

/--
Host functions that know no other functions than those that there are in `r`, and that look at the functions they get
only by calling and comparing them. What a host function does that is made later depends on its number no more.
-/
def Hosts.Blind (hosts : Hosts) (r : Registry) : Prop :=
  ∀ F : Function → Function → Prop, Function.Faithful F → (∀ f : Function, f.KnownTo r → F f f) →
    ∀ id id' behaviour, F (.host id behaviour) (.host id' behaviour) →
      ∀ args args', Paired (Value.Related F) args args' →
        Routine.Matches Eq F (hosts id behaviour args) (hosts id' behaviour args')

theorem Hosts.standard_blind (r : Registry) : Hosts.standard.Blind r :=
  fun _ _ _ _ _ behaviour _ _ _ h => behaviour.routine_matches (fun _ => rfl) h

section Later

variable {r r' r'' : Registry} {limit : Nat} {c : Context} {e : Expr} {o : Except EvalError Value}

theorem Registry.Later.refl (r : Registry) : r.Later r :=
  ⟨.of_eq rfl, Nat.le_refl _⟩

theorem Registry.Later.trans (h : r.Later r') (h' : r'.Later r'') : r.Later r'' :=
  ⟨h.grows.trans h'.grows, Nat.le_trans h.functions_le h'.functions_le⟩

/-- What comes after the evaluations of a list is found among those added. -/
theorem Evaluations.get_append_length_add (es fresh : Evaluations) (i : Nat) :
    Evaluations.get (es ++ fresh) (es.length + i) = Evaluations.get fresh i := by
  rw [Evaluations.get, Evaluations.get, List.getD_eq_getElem?_getD, List.getD_eq_getElem?_getD,
    List.getElem?_append_right (Nat.le_add_right ..), Nat.add_sub_cancel_left]

/-- A new evaluation is the same whenever it is started, and so are those before. -/
theorem Registry.Later.renumbering (h : r.Later r') (limit : Nat) :
    Renumbering (Shifted r.evaluations.length (r'.evaluations.length - r.evaluations.length))
      (r.started limit).evaluations (r'.started limit).evaluations where
  agree := by
    intro i j hij
    rcases hij with ⟨hi, rfl⟩ | ⟨hi, rfl⟩
    · obtain ⟨fresh, hfresh, -⟩ := h.grows
      rw [Registry.started, Registry.started, hfresh, List.append_assoc, Evaluations.get_append_of_lt _ _ hi,
        Evaluations.get_append_of_lt _ _ hi]
    · obtain ⟨i, rfl⟩ := Nat.exists_eq_add_of_le hi
      have hj : r.evaluations.length + i + (r'.evaluations.length - r.evaluations.length) =
          r'.evaluations.length + i := by
        have hlength := h.grows.length_le
        omega
      rw [hj, Registry.started, Registry.started, Evaluations.get_append_length_add,
        Evaluations.get_append_length_add]
  unique := Shifted.unique

namespace Hosts

variable {hosts : Hosts}

theorem Blind.admits (h : hosts.Blind r) (shift shift' : Nat) :
    (Likeness.reissued (Shifted r.evaluations.length shift') r.functions shift).Admits False hosts where
  like hfg := h _ (Function.Reissued.faithful Shifted.unique) (fun _ hf => hf.reissued shift shift') _ _ _ hfg
  returnErrors := False.elim

/-- An expression has the same outcome in a later registry, up to the numbers that it gives. -/
theorem gives_later (hhosts : hosts.Blind r) (hlater : r.Later r') (hc : c.KnownTo r) :
    EndsLike False (Value.AlikeSince r) (hosts.Gives limit c e r) (hosts.Gives limit c e r') := by
  have hfunctions := (Nat.add_sub_cancel' hlater.functions_le).symm
  have hlength := (Nat.add_sub_cancel' hlater.grows.length_le).symm
  generalize hshift : r'.functions - r.functions = shift at hfunctions
  generalize hshift' : r'.evaluations.length - r.evaluations.length = shift' at hlength
  refine EndsLike.mono (fun v w h => ⟨_, _, r.reissues_shifted shift shift', h⟩) (EndsAlike.endsLike ?_)
  refine gives_endsAlike_shift hfunctions (hhosts.admits shift shift') ?_ ⟨rfl, ?_, hc.reissued shift shift'⟩
  · rw [← hshift']
    exact (hlater.renumbering limit).roomier
  · exact .inr ⟨Nat.le_refl _, hlength⟩

/-- An evaluation ends in a later registry. -/
theorem GivesIn.later (h : hosts.GivesIn limit c e r o r') : r.Later r' := by
  obtain ⟨fuel, h⟩ := h
  obtain ⟨n, hn, rfl⟩ := evaluateNode_ends (depth_started_le r limit) h
  refine ⟨⟨[⟨limit, 0⟩], rfl, fun e he => ?_⟩, hn⟩
  rw [List.mem_singleton.1 he]

end Hosts

end Later

end RuleLang
