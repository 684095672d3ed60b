import RuleLang.Proofs.Parser.Grammar
import RuleLang.Proofs.Token.Spelling

/-!
# How the forms of the grammar are written

Characters that spell tokens of which the grammar makes an expression, put together from characters that spell its
parts. Canonical texts are written like this, and so are the sources of all trees.
-/

namespace RuleLang

/-- The characters that follow an expression within another one. -/
def closes (c : Char) : Bool :=
  c == ' ' || c == ')' || c == ',' || c == ']'

section Closing

variable {c : Char} {rest : List Char}

theorem closes_cases (h : closes c) : c = ' ' ∨ c = ')' ∨ c = ',' ∨ c = ']' := by
  simpa [closes, or_assoc] using h

theorem Before.endsIdentifier (h : Before closes rest) : Before RuleLang.endsIdentifier rest := by
  refine h.mono fun c hc => ?_
  rcases closes_cases hc with rfl | rfl | rfl | rfl <;> decide

theorem Before.endsNumeral (h : Before closes rest) : Before RuleLang.endsNumeral rest := by
  refine h.mono fun c hc => ?_
  rcases closes_cases hc with rfl | rfl | rfl | rfl <;> decide

end Closing

namespace Grammar

theorem IsPrimary.derives {o : Bool} {ts : List Token} {e : Expr} (h : IsPrimary o ts e) : Derives ts e :=
  ⟨o, .operators ((IsBinary.operand h).loosen (by decide) (by decide))⟩

section Forms

variable {cs ds : List Char} {e : Expr} {args : List Expr} {segments : List Segment} {root : String}

theorem spells_number {x : Float} (hcs : Spells (Before endsNumeral) cs (IsToken .number (String.ofList cs)))
    (hx : Number.read? (String.ofList cs) = some x) : Spells (Before closes) cs (IsPrimary false · (.number x)) := by
  refine (hcs.weaken fun _ => Before.endsNumeral).mono ?_
  rintro _ ⟨t, rfl, hk, ht⟩
  exact .number hk (ht ▸ hx)

theorem spells_string (s : String) : Spells (Before closes) (Text.quote s).toList (IsPrimary false · (.string s)) := by
  refine ((spells_quote s).weaken fun _ _ => trivial).mono ?_
  rintro _ ⟨t, rfl, hk, rfl⟩
  exact .string hk

/-- In parentheses, an expression may stand anywhere. -/
theorem spells_parentheses (hcs : Spells (Before closes) cs (Derives · e)) :
    Spells (fun _ => True) ('(' :: (cs ++ [')'])) (IsPrimary false · e) := by
  have hspells := spells_opening.append (hcs.append spells_closing fun _ _ => before_cons.2 rfl) fun _ _ => trivial
  refine hspells.mono ?_
  rintro _ ⟨_, _, rfl, ⟨opening, rfl, hopening⟩, _, _, rfl, ⟨o, he⟩, closing, rfl, hclosing⟩
  exact .parentheses hopening he hclosing

section Paths

variable (hcs : Spells (Before endsIdentifier) cs (IsPath · segments))

include hcs

theorem spells_index {is : List Char} (his : Spells (Before closes) is (Derives · e)) :
    Spells (Before endsIdentifier) ('[' :: (is ++ ']' :: cs)) (IsPath · (.index e :: segments)) := by
  have hspells := spells_opening_bracket.append (his.append (spells_closing_bracket.append hcs fun _ _ => trivial)
    fun _ _ => before_cons.2 rfl) fun _ _ => trivial
  refine hspells.mono ?_
  rintro _ ⟨_, _, rfl, ⟨opening, rfl, hopening⟩, _, _, rfl, ⟨o, he⟩, _, ts, rfl, ⟨closing, rfl, hclosing⟩, hts⟩
  exact .index hopening he hclosing hts

-- no segment starts with a letter or a digit, so a name ends before it
variable (hends : ∀ rest, Before endsIdentifier rest → Before endsIdentifier (cs ++ rest))

include hends

theorem spells_property {name : String} (hname : IsIdentifier name) :
    Spells (Before endsIdentifier) ('.' :: (name.toList ++ cs)) (IsPath · (.property name :: segments)) := by
  have hdigit : ∀ c, isIdentifierStart c → (!Number.isDigit c) = true :=
    fun c hc => by simp [not_digit_of_start hc]
  have hspells := spells_dot.append (hname.spells.append hcs hends) fun rest _ => by
    rw [List.append_assoc]
    exact hname.before hdigit _
  refine hspells.mono ?_
  rintro _ ⟨_, _, rfl, ⟨dot, rfl, hdot⟩, _, ts, rfl, ⟨t, rfl, hk, rfl⟩, hts⟩
  exact .property hdot hk hts

theorem spells_reference (hroot : IsIdentifier root) (hname : segments = [] → root ≠ "true" ∧ root ≠ "false") :
    Spells (Before closes) (root.toList ++ cs) (IsPrimary false · (.reference root segments)) := by
  have hspells := hroot.spells.append (hcs.weaken fun _ => Before.endsIdentifier)
    fun rest hrest => hends rest hrest.endsIdentifier
  refine hspells.mono ?_
  rintro _ ⟨_, ts, rfl, ⟨t, rfl, hk, rfl⟩, hts⟩
  refine .reference hk hts fun hnil => hname ?_
  subst hnil
  cases hts
  rfl

theorem spells_call (hroot : IsIdentifier root) (hds : Spells (Before closes) ds (IsArguments · args)) :
    Spells (Before closes) ((root.toList ++ cs) ++ '(' :: (ds ++ [')']))
      (IsPrimary false · (.call (pathText root segments) args)) := by
  have hspells := (hroot.spells.append hcs hends).append (spells_opening.append (hds.append spells_closing
    fun _ _ => before_cons.2 rfl) fun _ _ => trivial) fun _ _ => before_cons.2 rfl
  refine (hspells.weaken fun _ _ => trivial).mono ?_
  rintro _ ⟨_, _, rfl, ⟨_, ts, rfl, ⟨t, rfl, hk, rfl⟩, hts⟩, _, _, rfl, ⟨opening, rfl, hopening⟩,
    as, _, rfl, has, closing, rfl, hclosing⟩
  have hcall := IsPrimary.call hk hts hopening has hclosing
  simpa using hcall

end Paths

theorem spells_last (hcs : Spells (Before closes) cs (Derives · e)) :
    Spells (Before closes) cs (IsArgumentList · [e]) :=
  hcs.mono fun _ ⟨_, he⟩ => .last he

theorem spells_more (hcs : Spells (Before closes) cs (Derives · e))
    (hds : Spells (Before closes) ds (IsArgumentList · args)) :
    Spells (Before closes) (cs ++ ',' :: ds) (IsArgumentList · (e :: args)) := by
  refine (hcs.append (spells_comma.append hds fun _ _ => trivial) fun _ _ => before_cons.2 rfl).mono ?_
  rintro _ ⟨_, _, rfl, ⟨o, he⟩, _, _, rfl, ⟨comma, rfl, hcomma⟩, hlist⟩
  exact .more he hcomma hlist

end Forms

end Grammar

end RuleLang
