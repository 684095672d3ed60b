import RuleLang.Eval.Operator
import RuleLang.Proofs.Value.Functions

/-!
# Where functions stem from

The functions that have been made are listed in the order in which they were made, each with its place in the list as
its number. A function is recorded there if it is the one that the list has for its number, and if what it has captured
is recorded as well. Recorded functions that have one number are the same, and they stay recorded when more functions
are made.
-/

namespace RuleLang

/-- The functions that a function has captured. -/
def Function.captured : Function → List Function
  | .host .. => []
  | .closure _ _ _ _ scope => Value.functionsOfEntries scope

/-- A function is within itself and within every function that has captured one that it is within. -/
inductive Function.Within (f : Function) : Function → Prop
  | self : Within f f
  | captured {g h : Function} : g ∈ h.captured → Within f g → Within f h

theorem Function.Within.trans {f g h : Function} (hfg : f.Within g) (hgh : g.Within h) : f.Within h := by
  induction hgh with
  | self => exact hfg
  | captured hmem _ ih => exact .captured hmem ih

/-- Functions that are on the list of the functions made, with all that they have captured. -/
def Function.Recorded (made : List Function) (g : Function) : Prop :=
  ∀ f : Function, f.Within g → made[f.id]? = some f

/-- Values with recorded functions only. -/
abbrev Value.Recorded (made : List Function) (v : Value) : Prop :=
  ∀ f ∈ v.functions, f.Recorded made

/-- Bindings to values with recorded functions only. -/
abbrev Scope.Recorded (made : List Function) (entries : List (String × Value)) : Prop :=
  ∀ f ∈ Value.functionsOfEntries entries, f.Recorded made

namespace Function

variable {made made' : List Function} {f g : Function}

theorem Recorded.getElem? (h : f.Recorded made) : made[f.id]? = some f :=
  h f .self

theorem Recorded.captured (h : f.Recorded made) (hg : g ∈ f.captured) : g.Recorded made :=
  fun _ hwithin => h _ (.captured hg hwithin)

theorem Recorded.of_captured (h : made[f.id]? = some f) (hcaptured : ∀ g ∈ f.captured, g.Recorded made) :
    f.Recorded made := by
  intro g hg
  cases hg with
  | self => exact h
  | captured hmem hwithin => exact hcaptured _ hmem _ hwithin

theorem Recorded.mono (h : f.Recorded made) (hmore : made <+: made') : f.Recorded made' := by
  intro g hg
  obtain ⟨more, rfl⟩ := hmore
  have hplace := h g hg
  rw [List.getElem?_append_left (List.getElem?_eq_some_iff.1 hplace).1]
  exact hplace

theorem Recorded.within (h : g.Recorded made) (hf : f.Within g) : f.Recorded made :=
  fun f' hf' => h f' (hf'.trans hf)

/-- Whatever is made now gets a number that no recorded function has. -/
theorem Recorded.id_lt (h : f.Recorded made) : f.id < made.length :=
  (List.getElem?_eq_some_iff.1 h.getElem?).1

theorem Recorded.eq_of_id_eq (hf : f.Recorded made) (hg : g.Recorded made) (h : f.id = g.id) : f = g :=
  Option.some.inj (hf.getElem?.symm.trans ((congrArg (made[·]?) h).trans hg.getElem?))

end Function

/-- Whether two values are equal, by both operators for equality. -/
def Value.Compare (v w : Value) (equal : Bool) : Prop :=
  BinaryOp.eq.apply v w = .ok (.boolean equal) ∧ BinaryOp.strictEq.apply v w = .ok (.boolean equal)

/-- Functions are equal as values if they have one number. -/
theorem Function.compare (f g : Function) : Value.Compare (.function f) (.function g) (decide (f.id = g.id)) := by
  have hsame : Value.same (.function f) (.function g) = decide (f.id = g.id) := by
    rw [Value.same, Bool.eq_iff_iff, beq_iff_eq, decide_eq_true_iff]
  constructor
  · show Except.ok (Value.boolean (Value.same (.function f) (.function g))) = _
    rw [hsame]
  · show Except.ok (Value.boolean (Value.same (.function f) (.function g))) = _
    rw [hsame]

theorem Function.compare_true_iff {f g : Function} :
    Value.Compare (.function f) (.function g) true ↔ f.id = g.id := by
  constructor
  · intro h
    have hvalue := (f.compare g).1.symm.trans h.1
    cases hid : decide (f.id = g.id) with
    | true => exact of_decide_eq_true hid
    | false =>
      rw [hid] at hvalue
      cases hvalue
  · intro h
    have hcompare := f.compare g
    rw [decide_eq_true h] at hcompare
    exact hcompare

theorem Function.compare_of_ne {f g : Function} (h : f.id ≠ g.id) :
    Value.Compare (.function f) (.function g) false := by
  have hcompare := f.compare g
  rw [decide_eq_false h] at hcompare
  exact hcompare

end RuleLang
