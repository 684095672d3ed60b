import RuleLang.Proofs.Parser.Completeness
import RuleLang.Proofs.Parser.Writing
import RuleLang.Proofs.Printer.Shape

/-!
# The tree that a canonical text is read as

`ReadAs e e'` says which tree the text of a well-formed tree is read as. The two differ where an operator stands
behind a lambda: the lambda takes the operator and its right operand into its body. `absorb` is that taking in.
-/

namespace RuleLang.Expr

open Grammar

/-- What the text of `e`, read as `e'`, is read as when an operator and its operands follow, which by themselves
would make `k left` out of a left operand. A lambda takes them into its body. -/
def absorb (k : Expr → Expr) : Expr → Expr → Expr
  | .lambda _ body, .lambda param body' => .lambda param (absorb k body body')
  | .unary _ x, .unary op x' => if x.openEnded then .unary op (absorb k x x') else k (.unary op x')
  | _, e' => k e'

mutual

/-- What the text of a tree is read as. -/
inductive ReadAs : Expr → Expr → Prop
  | number {x y : Float} :
      Number.IsLiteral x → Number.read? (Number.text x) = some y → y == x → ReadAs (.number x) (.number y)
  | string {s : String} : ReadAs (.string s) (.string s)
  | reference {root : String} {segments segments' : List Segment} :
      IsIdentifier root → PathReadAs segments segments' → (segments = [] → root ≠ "true" ∧ root ≠ "false") →
      ReadAs (.reference root segments) (.reference root segments')
  | unary {op : UnaryOp} {x x' : Expr} : ReadAs x x' → ReadAs (.unary op x) (.unary op x')
  | binary {op : BinaryOp} {left left' right right' : Expr} :
      ReadAs left left' → ReadAs right right' →
      ReadAs (.binary op left right) (absorb (.binary op · right') left left')
  | ternary {condition condition' yes yes' no no' : Expr} :
      ReadAs condition condition' → ReadAs yes yes' → ReadAs no no' →
      ReadAs (.ternary condition yes no) (absorb (.ternary · yes' no') condition condition')
  | call {root : String} {segments segments' : List Segment} {args args' : List Expr} :
      IsIdentifier root → PathReadAs segments segments' → ArgsReadAs args args' →
      ReadAs (.call (pathText root segments) args) (.call (pathText root segments') args')
  | lambda {param : String} {body body' : Expr} :
      IsIdentifier param → ReadAs body body' → ReadAs (.lambda param body) (.lambda param body')

inductive PathReadAs : List Segment → List Segment → Prop
  | nil : PathReadAs [] []
  | property {name : String} {segments segments' : List Segment} :
      IsIdentifier name → PathReadAs segments segments' →
      PathReadAs (.property name :: segments) (.property name :: segments')
  | index {e e' : Expr} {segments segments' : List Segment} :
      ReadAs e e' → PathReadAs segments segments' → PathReadAs (.index e :: segments) (.index e' :: segments')

inductive ArgsReadAs : List Expr → List Expr → Prop
  | nil : ArgsReadAs [] []
  | cons {e e' : Expr} {args args' : List Expr} :
      ReadAs e e' → ArgsReadAs args args' → ArgsReadAs (e :: args) (e' :: args')

end

mutual

/-- The text of a well-formed tree is read as some tree. -/
theorem WellFormed.readAs {e : Expr} (h : WellFormed e) : ∃ e', ReadAs e e' := by
  match h with
  | .number hx =>
    obtain ⟨y, hy, heq⟩ := hx.reads_back
    exact ⟨_, .number hx hy heq⟩
  | .string => exact ⟨_, .string⟩
  | .reference hroot hpath hname =>
    obtain ⟨segments', hpath'⟩ := hpath.readAs
    exact ⟨_, .reference hroot hpath' hname⟩
  | .unary hx =>
    obtain ⟨x', hx'⟩ := hx.readAs
    exact ⟨_, .unary hx'⟩
  | .binary hleft hright =>
    obtain ⟨left', hleft'⟩ := hleft.readAs
    obtain ⟨right', hright'⟩ := hright.readAs
    exact ⟨_, .binary hleft' hright'⟩
  | .ternary hcondition hyes hno =>
    obtain ⟨condition', hcondition'⟩ := hcondition.readAs
    obtain ⟨yes', hyes'⟩ := hyes.readAs
    obtain ⟨no', hno'⟩ := hno.readAs
    exact ⟨_, .ternary hcondition' hyes' hno'⟩
  | .call hroot hpath hargs =>
    obtain ⟨segments', hpath'⟩ := hpath.readAs
    obtain ⟨args', hargs'⟩ := hargs.readAs
    exact ⟨_, .call hroot hpath' hargs'⟩
  | .lambda hparam hbody =>
    obtain ⟨body', hbody'⟩ := hbody.readAs
    exact ⟨_, .lambda hparam hbody'⟩

theorem WellFormedPath.readAs {segments : List Segment} (h : WellFormedPath segments) :
    ∃ segments', PathReadAs segments segments' := by
  match h with
  | .nil => exact ⟨_, .nil⟩
  | .property hname hpath =>
    obtain ⟨segments', hpath'⟩ := hpath.readAs
    exact ⟨_, .property hname hpath'⟩
  | .index he hpath =>
    obtain ⟨e', he'⟩ := he.readAs
    obtain ⟨segments', hpath'⟩ := hpath.readAs
    exact ⟨_, .index he' hpath'⟩

theorem WellFormedArgs.readAs {args : List Expr} (h : WellFormedArgs args) :
    ∃ args', ArgsReadAs args args' := by
  match h with
  | .nil => exact ⟨_, .nil⟩
  | .cons he hargs =>
    obtain ⟨e', he'⟩ := he.readAs
    obtain ⟨args', hargs'⟩ := hargs.readAs
    exact ⟨_, .cons he' hargs'⟩

end

theorem absorb_closed {k : Expr → Expr} {e : Expr} (h : e.openEnded = false) (e' : Expr) :
    absorb k e e' = k e' := by
  cases e with
  | lambda param body => cases h
  | unary op x =>
    rw [openEnded] at h
    cases e' <;> simp [absorb, h]
  | _ => simp [absorb]

/-- Tokens of the text of `e`, which is read as `e'`: they are a primary, and if the text ends in a lambda body,
then tokens behind them belong to that body. -/
structure Stands (e e' : Expr) (ts : List Token) : Prop where
  primary : IsPrimary e.openEnded ts e'
  absorbs : ∀ {k : Expr → Expr} {ks : List Token} {o : Bool},
    (∀ {bs b}, IsPrimary false bs b → IsExpression o (bs ++ ks) (k b)) → e.openEnded →
    IsPrimary true (ts ++ ks) (absorb k e e')

namespace Stands

variable {e e' : Expr} {ts : List Token}

theorem of_closed (ho : e.openEnded = false) (h : IsPrimary false ts e') : Stands e e' ts where
  primary := ho ▸ h
  absorbs := by
    intro _ _ _ _ hopen
    rw [ho] at hopen
    cases hopen

theorem binary (h : Stands e e' ts) {p : Nat} (h1 : 1 ≤ p) (h7 : p ≤ 7) : IsBinary p e.openEnded ts e' :=
  (IsBinary.operand h.primary).loosen h1 h7

theorem expression (h : Stands e e' ts) : IsExpression e.openEnded ts e' :=
  .operators (h.binary (Nat.le_refl 1) (by decide))

/-- With an operator and its operands behind them, the tokens are an expression. -/
theorem followed (h : Stands e e' ts) {k : Expr → Expr} {ks : List Token} {o : Bool}
    (hk : ∀ {bs b}, IsPrimary false bs b → IsExpression o (bs ++ ks) (k b)) :
    ∃ o', IsExpression o' (ts ++ ks) (absorb k e e') := by
  cases ho : e.openEnded with
  | false =>
    rw [absorb_closed ho]
    exact ⟨o, hk (ho ▸ h.primary)⟩
  | true =>
    have hprimary := h.absorbs hk ho
    exact ⟨true, .operators ((IsBinary.operand hprimary).loosen (by decide) (by decide))⟩

section Forms

variable {left left' right right' : Expr} {ls rs : List Token} {opening closing t : Token}

theorem of_binary {op : BinaryOp} (hopening : opening.isPunctuation "(") (hleft : Stands left left' ls)
    (ht : t.isOperator op.symbol) (hright : Stands right right' rs) (hclosing : closing.isPunctuation ")") :
    Stands (.binary op left right) (absorb (.binary op · right') left left')
      (opening :: ((ls ++ t :: rs) ++ [closing])) := by
  refine of_closed rfl ?_
  obtain ⟨o, hinside⟩ : ∃ o, IsExpression o (ls ++ t :: rs) (absorb (.binary op · right') left left') :=
    hleft.followed fun hb => .operators (((IsBinary.operand hb).loosen (precedence_pos op)
      (Nat.le_succ_of_le (precedence_le op)) |>.operator ht
        (hright.binary (Nat.succ_pos _) (Nat.succ_le_succ (precedence_le op)))).loosen (Nat.le_refl 1)
          (precedence_pos op))
  exact .parentheses hopening hinside hclosing

theorem of_ternary {condition condition' yes yes' no no' : Expr} {cs ys ns : List Token} {question colon : Token}
    (hopening : opening.isPunctuation "(") (hcondition : Stands condition condition' cs)
    (hquestion : question.isOperator "?") (hyes : Stands yes yes' ys) (hcolon : colon.isOperator ":")
    (hno : Stands no no' ns) (hclosing : closing.isPunctuation ")") :
    Stands (.ternary condition yes no) (absorb (.ternary · yes' no') condition condition')
      (opening :: ((cs ++ question :: (ys ++ colon :: ns)) ++ [closing])) := by
  refine of_closed rfl ?_
  obtain ⟨o, hinside⟩ : ∃ o, IsExpression o (cs ++ question :: (ys ++ colon :: ns))
      (absorb (.ternary · yes' no') condition condition') :=
    hcondition.followed fun hb => .ternary ((IsBinary.operand hb).loosen (Nat.le_refl 1) (by decide)) hquestion
      hyes.expression hcolon hno.expression
  exact .parentheses hopening hinside hclosing

theorem of_unary {op : UnaryOp} {x x' : Expr} {ts : List Token} (ht : t.isOperator op.symbol)
    (h : Stands x x' ts) : Stands (.unary op x) (.unary op x') (t :: ts) where
  primary := .unary ht h.primary
  absorbs := by
    intro k ks o hk ho
    rw [openEnded] at ho
    rw [absorb, if_pos ho]
    exact .unary ht (h.absorbs hk ho)

theorem of_lambda {body body' : Expr} {ts : List Token} {arrow : Token} (ht : t.kind = .identifier)
    (harrow : arrow.isOperator "=>") (h : Stands body body' ts) :
    Stands (.lambda t.text body) (.lambda t.text body') (t :: arrow :: ts) where
  primary := .lambda ht harrow h.expression
  absorbs := by
    intro k ks o hk _
    obtain ⟨o', hbody⟩ := h.followed hk
    exact .lambda ht harrow hbody

end Forms

end Stands

/-- The text of a tree does not start with an equals sign. -/
theorem ReadAs.before {e e' : Expr} (h : ReadAs e e') (rest : List Char) : Before (· != '=') (e.chars ++ rest) := by
  have hstart : ∀ c, isIdentifierStart c → (c != '=') = true :=
    fun c hc => bne_iff_ne.2 (ne_of_start hc (by decide))
  cases h with
  | number hx =>
    refine hx.isNumeral_text.before (fun c hc => bne_iff_ne.2 ?_) rest
    rintro rfl
    cases hc
  | string =>
    rw [chars, Text.quote, String.toList_ofList]
    exact before_cons.2 rfl
  | reference hroot =>
    rw [chars, List.append_assoc]
    exact hroot.before hstart _
  | @unary op => cases op <;> exact before_cons.2 rfl
  | binary => exact before_cons.2 rfl
  | ternary => exact before_cons.2 rfl
  | call hroot =>
    rw [chars, toList_pathText, List.append_assoc, List.append_assoc, List.append_assoc]
    exact hroot.before hstart _
  | lambda hparam =>
    rw [chars, List.append_assoc]
    exact hparam.before hstart _

theorem PathReadAs.before {segments segments' : List Segment} {rest : List Char} (h : PathReadAs segments segments')
    (hrest : Before endsIdentifier rest) : Before endsIdentifier (segmentChars segments ++ rest) := by
  cases h with
  | nil => exact hrest
  | property => exact before_cons.2 rfl
  | index => exact before_cons.2 rfl

theorem PathReadAs.eq_nil {segments : List Segment} (h : PathReadAs segments []) : segments = [] := by
  cases h
  rfl

section Compound

theorem spells_binary {op : BinaryOp} {left left' right right' : Expr}
    (hleft : Spells (Before closes) left.chars (Stands left left'))
    (hright : Spells (Before closes) right.chars (Stands right right')) :
    Spells (Before closes) (chars (.binary op left right))
      (Stands (.binary op left right) (absorb (.binary op · right') left left')) := by
  have hspells := spells_opening.append (hleft.append ((spells_operator op).space.append
    (hright.space.append spells_closing fun _ _ => before_cons.2 rfl) fun _ _ => before_cons.2 rfl)
    fun _ _ => before_cons.2 rfl) fun _ _ => trivial
  rw [chars_binary]
  refine (hspells.weaken fun _ _ => trivial).mono ?_
  rintro _ ⟨_, _, rfl, ⟨opening, rfl, hopening⟩, ls, _, rfl, hls, _, _, rfl, ⟨t, rfl, ht⟩, rs, _, rfl, hrs,
    ⟨closing, rfl, hclosing⟩⟩
  have hstands := Stands.of_binary hopening hls ht hrs hclosing
  rw [List.append_assoc] at hstands
  exact hstands

theorem spells_ternary {condition condition' yes yes' no no' : Expr}
    (hcondition : Spells (Before closes) condition.chars (Stands condition condition'))
    (hyes : Spells (Before closes) yes.chars (Stands yes yes'))
    (hno : Spells (Before closes) no.chars (Stands no no')) :
    Spells (Before closes) (chars (.ternary condition yes no))
      (Stands (.ternary condition yes no) (absorb (.ternary · yes' no') condition condition')) := by
  have hspells := spells_opening.append (hcondition.append (spells_question.space.append
    (hyes.space.append (spells_colon.space.append (hno.space.append spells_closing
    fun _ _ => before_cons.2 rfl) fun _ _ => trivial) fun _ _ => before_cons.2 rfl) fun _ _ => trivial)
    fun _ _ => before_cons.2 rfl) fun _ _ => trivial
  rw [chars_ternary]
  refine (hspells.weaken fun _ _ => trivial).mono ?_
  rintro _ ⟨_, _, rfl, ⟨opening, rfl, hopening⟩, cs, _, rfl, hcs, _, _, rfl,
    ⟨question, rfl, hquestion⟩, ys, _, rfl, hys, _, _, rfl, ⟨colon, rfl, hcolon⟩, ns, _, rfl, hns,
    ⟨closing, rfl, hclosing⟩⟩
  have hstands := Stands.of_ternary hopening hcs hquestion hys hcolon hns hclosing
  rw [List.append_assoc, List.cons_append, List.append_assoc] at hstands
  exact hstands

theorem spells_lambda {param : String} {body body' : Expr} (hparam : IsIdentifier param)
    (hbody : Spells (Before closes) body.chars (Stands body body')) :
    Spells (Before closes) (chars (.lambda param body)) (Stands (.lambda param body) (.lambda param body')) := by
  have hspells := hparam.spells.append (spells_arrow.space.append hbody.space fun _ _ => trivial)
    fun _ _ => before_cons.2 rfl
  have hchars : chars (.lambda param body) = param.toList ++ ([' ', '=', '>'] ++ ' ' :: body.chars) := by
    simp [chars]
  rw [hchars]
  refine hspells.mono ?_
  rintro _ ⟨_, _, rfl, ⟨t, rfl, hk, rfl⟩, _, ts, rfl, ⟨arrow, rfl, harrow⟩, hts⟩
  exact .of_lambda hk harrow hts

end Compound

mutual

/-- The text of a tree spells tokens that stand for the tree it is read as. -/
theorem ReadAs.spells {e e' : Expr} (h : ReadAs e e') : Spells (Before closes) e.chars (Stands e e') := by
  match h with
  | .number hx hy _ =>
    refine (spells_number hx.isNumeral_text.spells ?_).mono fun _ => .of_closed rfl
    rwa [String.ofList_toList]
  | .string => exact (spells_string _).mono fun _ => .of_closed rfl
  | .reference hroot hpath hname =>
    refine (spells_reference hpath.spells (fun _ => hpath.before) hroot fun hnil => hname ?_).mono
      fun _ => .of_closed rfl
    subst hnil
    exact hpath.eq_nil
  | @ReadAs.unary op x x' hx =>
    refine ((spells_sign op).append hx.spells fun rest _ => hx.before rest).mono ?_
    rintro _ ⟨_, ts, rfl, ⟨t, rfl, ht⟩, hts⟩
    exact .of_unary ht hts
  | .binary hleft hright => exact spells_binary hleft.spells hright.spells
  | .ternary hcondition hyes hno => exact spells_ternary hcondition.spells hyes.spells hno.spells
  | .call hroot hpath hargs =>
    rw [chars_call]
    exact (spells_call hpath.spells (fun _ => hpath.before) hroot hargs.spells.1).mono fun _ => .of_closed rfl
  | .lambda hparam hbody => exact spells_lambda hparam hbody.spells

theorem PathReadAs.spells {segments segments' : List Segment} (h : PathReadAs segments segments') :
    Spells (Before endsIdentifier) (segmentChars segments) (IsPath · segments') := by
  match h with
  | .nil => exact .nil .nil
  | @PathReadAs.property name segments segments' hname hpath =>
    have hspells := spells_property hpath.spells (fun _ => hpath.before) hname
    simpa [segmentChars, Segment.chars] using hspells
  | @PathReadAs.index e e' segments segments' he hpath =>
    have hspells := spells_index hpath.spells (he.spells.mono fun _ hts => ⟨_, hts.expression⟩)
    simpa [segmentChars, Segment.chars] using hspells

theorem ArgsReadAs.spells {args args' : List Expr} (h : ArgsReadAs args args') :
    Spells (Before closes) (argChars args) (IsArguments · args') ∧
      (args ≠ [] → Spells (Before closes) (argChars args) (IsArgumentList · args')) := by
  match h with
  | .nil => exact ⟨.nil .none, fun hne => absurd rfl hne⟩
  | @ArgsReadAs.cons e e' args args' he hargs =>
    have hhead : Spells (Before closes) e.chars (Derives · e') := he.spells.mono fun _ hts => ⟨_, hts.expression⟩
    have htail := hargs.spells.2
    have hlist : Spells (Before closes) (argChars (e :: args)) (IsArgumentList · (e' :: args')) := by
      cases args with
      | nil =>
        cases hargs
        exact spells_last hhead
      | cons d ds =>
        rw [argChars_cons_cons]
        exact spells_more hhead (htail (List.cons_ne_nil d ds)).space
    exact ⟨hlist.mono fun _ => .some, fun _ => hlist⟩

end

end RuleLang.Expr
