import RuleLang.Expr.Parser

/-!
# The grammar of expressions

Which tokens are an expression, and which tree they stand for, without a word on how they are read. Every level
of binary operators associates to the left, and a primary may be put in parentheses as often as one likes.

The flag of a derivation says that its tokens end in the body of a lambda that no parenthesis closes. Such a body
extends as far to the right as it can: neither a binary operator nor the question mark of a ternary follows it.
-/

namespace RuleLang.Grammar

mutual

/-- Tokens that are an expression. -/
inductive IsExpression : Bool → List Token → Expr → Prop
  | operators {o : Bool} {ts : List Token} {e : Expr} :
      IsBinary 1 o ts e → IsExpression o ts e
  | ternary {o o' : Bool} {cs ys ns : List Token} {question colon : Token} {condition yes no : Expr} :
      IsBinary 1 false cs condition → question.isOperator "?" → IsExpression o ys yes →
      colon.isOperator ":" → IsExpression o' ns no →
      IsExpression o' (cs ++ question :: (ys ++ colon :: ns)) (.ternary condition yes no)

/-- Tokens that are operands and binary operators from a precedence on; from 7 on there is no operator. -/
inductive IsBinary : Nat → Bool → List Token → Expr → Prop
  | operand {o : Bool} {ts : List Token} {e : Expr} :
      IsPrimary o ts e → IsBinary 7 o ts e
  | tighter {p : Nat} {o : Bool} {ts : List Token} {e : Expr} :
      1 ≤ p → IsBinary (p + 1) o ts e → IsBinary p o ts e
  | operator {o : Bool} {ls rs : List Token} {t : Token} {op : BinaryOp} {left right : Expr} :
      IsBinary op.precedence false ls left → t.isOperator op.symbol → IsBinary (op.precedence + 1) o rs right →
      IsBinary op.precedence o (ls ++ t :: rs) (.binary op left right)

inductive IsPrimary : Bool → List Token → Expr → Prop
  | number {t : Token} {x : Float} :
      t.kind = .number → Number.read? t.text = some x → IsPrimary false [t] (.number x)
  | string {t : Token} :
      t.kind = .string → IsPrimary false [t] (.string t.text)
  | yes {t : Token} :
      t.kind = .identifier → t.text = "true" → IsPrimary false [t] (.number 1)
  | no {t : Token} :
      t.kind = .identifier → t.text = "false" → IsPrimary false [t] (.number 0)
  | lambda {o : Bool} {t arrow : Token} {ts : List Token} {body : Expr} :
      t.kind = .identifier → arrow.isOperator "=>" → IsExpression o ts body →
      IsPrimary true (t :: arrow :: ts) (.lambda t.text body)
  | reference {t : Token} {ts : List Token} {segments : List Segment} :
      t.kind = .identifier → IsPath ts segments → (ts = [] → t.text ≠ "true" ∧ t.text ≠ "false") →
      IsPrimary false (t :: ts) (.reference t.text segments)
  | call {t opening closing : Token} {ts as : List Token} {segments : List Segment} {args : List Expr} :
      t.kind = .identifier → IsPath ts segments → opening.isPunctuation "(" → IsArguments as args →
      closing.isPunctuation ")" →
      IsPrimary false (t :: (ts ++ opening :: (as ++ [closing]))) (.call (pathText t.text segments) args)
  | parentheses {o : Bool} {opening closing : Token} {ts : List Token} {e : Expr} :
      opening.isPunctuation "(" → IsExpression o ts e → closing.isPunctuation ")" →
      IsPrimary false (opening :: (ts ++ [closing])) e
  | unary {o : Bool} {t : Token} {ts : List Token} {op : UnaryOp} {e : Expr} :
      t.isOperator op.symbol → IsPrimary o ts e → IsPrimary o (t :: ts) (.unary op e)

inductive IsPath : List Token → List Segment → Prop
  | nil : IsPath [] []
  | property {dot name : Token} {ts : List Token} {segments : List Segment} :
      dot.isPunctuation "." → name.kind = .identifier → IsPath ts segments →
      IsPath (dot :: name :: ts) (.property name.text :: segments)
  | index {o : Bool} {opening closing : Token} {is ts : List Token} {e : Expr} {segments : List Segment} :
      opening.isPunctuation "[" → IsExpression o is e → closing.isPunctuation "]" → IsPath ts segments →
      IsPath (opening :: (is ++ closing :: ts)) (.index e :: segments)

/-- Tokens that are the arguments of a call, of which there may be none. -/
inductive IsArguments : List Token → List Expr → Prop
  | none : IsArguments [] []
  | some {ts : List Token} {args : List Expr} : IsArgumentList ts args → IsArguments ts args

/-- Tokens that are arguments with commas between them. -/
inductive IsArgumentList : List Token → List Expr → Prop
  | last {o : Bool} {ts : List Token} {e : Expr} : IsExpression o ts e → IsArgumentList ts [e]
  | more {o : Bool} {ts as : List Token} {comma : Token} {e : Expr} {args : List Expr} :
      IsExpression o ts e → comma.isPunctuation "," → IsArgumentList as args →
      IsArgumentList (ts ++ comma :: as) (e :: args)

end

/-- Tokens that are a whole expression with its tree. -/
def Derives (ts : List Token) (e : Expr) : Prop :=
  ∃ o, IsExpression o ts e

/-- Operators of a level are operators of every looser level. -/
theorem IsBinary.loosen {p q : Nat} {o : Bool} {ts : List Token} {e : Expr} (h : IsBinary q o ts e) (hp : 1 ≤ p)
    (hpq : p ≤ q) : IsBinary p o ts e := by
  obtain ⟨d, rfl⟩ := Nat.exists_eq_add_of_le hpq
  clear hpq
  induction d generalizing p with
  | zero => exact h
  | succ d ih =>
    rw [← Nat.add_assoc, Nat.add_right_comm] at h
    exact .tighter hp (ih (by omega) h)

abbrev Inner (t : Token) : Prop :=
  t.kind ≠ .endOfInput

theorem inner_of_operator {t : Token} {symbol : String} (h : t.isOperator symbol) : Inner t := by
  rw [Inner, (Token.isOperator_iff.1 h).1]
  decide

theorem inner_of_punctuation {t : Token} {mark : String} (h : t.isPunctuation mark) : Inner t := by
  rw [Inner, (Token.isPunctuation_iff.1 h).1]
  decide

mutual

/-- An expression has no end marker within. -/
theorem IsExpression.inner {o : Bool} {ts : List Token} {e : Expr} (h : IsExpression o ts e) :
    ∀ t ∈ ts, Inner t := by
  match h with
  | .operators hb => exact hb.inner
  | .ternary hc hquestion hy hcolon hn =>
    simp only [List.forall_mem_append, List.forall_mem_cons]
    exact ⟨hc.inner, inner_of_operator hquestion, hy.inner, inner_of_operator hcolon, hn.inner⟩

theorem IsBinary.inner {p : Nat} {o : Bool} {ts : List Token} {e : Expr} (h : IsBinary p o ts e) :
    ∀ t ∈ ts, Inner t := by
  match h with
  | .operand hp => exact hp.inner
  | .tighter _ hb => exact hb.inner
  | .operator hl ht hr =>
    simp only [List.forall_mem_append, List.forall_mem_cons]
    exact ⟨hl.inner, inner_of_operator ht, hr.inner⟩

theorem IsPrimary.inner {o : Bool} {ts : List Token} {e : Expr} (h : IsPrimary o ts e) : ∀ t ∈ ts, Inner t := by
  match h with
  | .number hk _ => simp [Inner, hk]
  | .string hk => simp [Inner, hk]
  | .yes hk _ => simp [Inner, hk]
  | .no hk _ => simp [Inner, hk]
  | .lambda hk harrow hbody =>
    simp only [List.forall_mem_cons]
    exact ⟨by simp [Inner, hk], inner_of_operator harrow, hbody.inner⟩
  | .reference hk hpath _ =>
    simp only [List.forall_mem_cons]
    exact ⟨by simp [Inner, hk], hpath.inner⟩
  | .call hk hpath hopening hargs hclosing =>
    simp only [List.forall_mem_cons, List.forall_mem_append]
    exact ⟨by simp [Inner, hk], hpath.inner, inner_of_punctuation hopening, hargs.inner,
      inner_of_punctuation hclosing, nofun⟩
  | .parentheses hopening he hclosing =>
    simp only [List.forall_mem_cons, List.forall_mem_append]
    exact ⟨inner_of_punctuation hopening, he.inner, inner_of_punctuation hclosing, nofun⟩
  | .unary ht hp =>
    simp only [List.forall_mem_cons]
    exact ⟨inner_of_operator ht, hp.inner⟩

theorem IsPath.inner {ts : List Token} {segments : List Segment} (h : IsPath ts segments) : ∀ t ∈ ts, Inner t := by
  match h with
  | .nil => exact nofun
  | .property hdot hk hpath =>
    simp only [List.forall_mem_cons]
    exact ⟨inner_of_punctuation hdot, by simp [Inner, hk], hpath.inner⟩
  | .index hopening he hclosing hpath =>
    simp only [List.forall_mem_cons, List.forall_mem_append]
    exact ⟨inner_of_punctuation hopening, he.inner, inner_of_punctuation hclosing, hpath.inner⟩

theorem IsArguments.inner {ts : List Token} {args : List Expr} (h : IsArguments ts args) : ∀ t ∈ ts, Inner t := by
  match h with
  | .none => exact nofun
  | .some hlist => exact hlist.inner

theorem IsArgumentList.inner {ts : List Token} {args : List Expr} (h : IsArgumentList ts args) :
    ∀ t ∈ ts, Inner t := by
  match h with
  | .last he => exact he.inner
  | .more he hcomma hlist =>
    simp only [List.forall_mem_cons, List.forall_mem_append]
    exact ⟨he.inner, inner_of_punctuation hcomma, hlist.inner⟩

end

/-- A token that an expression may start with. -/
def Starts (t : Token) : Prop :=
  t.kind = .number ∨ t.kind = .string ∨ t.kind = .identifier ∨ t.isPunctuation "(" ∨
    ∃ op : UnaryOp, t.isOperator op.symbol

/-- An expression does not start with a punctuation mark other than an opening parenthesis. -/
theorem Starts.not_punctuation {t : Token} {mark : String} (h : Starts t) (hm : "(" ≠ mark) :
    t.isPunctuation mark = false := by
  rcases h with hk | hk | hk | hp | ⟨op, hop⟩
  · exact Token.isPunctuation_of_kind mark (by simp [hk])
  · exact Token.isPunctuation_of_kind mark (by simp [hk])
  · exact Token.isPunctuation_of_kind mark (by simp [hk])
  · exact Token.isPunctuation_ne mark hp hm
  · exact Token.isPunctuation_of_kind mark (by simp [(Token.isOperator_iff.1 hop).1])

section First

variable {o : Bool} {ts : List Token} {e : Expr}

theorem IsPrimary.starts (h : IsPrimary o ts e) : ∃ t ts', ts = t :: ts' ∧ Starts t := by
  cases h with
  | number hk _ => exact ⟨_, _, rfl, .inl hk⟩
  | string hk => exact ⟨_, _, rfl, .inr (.inl hk)⟩
  | yes hk _ => exact ⟨_, _, rfl, .inr (.inr (.inl hk))⟩
  | no hk _ => exact ⟨_, _, rfl, .inr (.inr (.inl hk))⟩
  | lambda hk _ _ => exact ⟨_, _, rfl, .inr (.inr (.inl hk))⟩
  | reference hk _ _ => exact ⟨_, _, rfl, .inr (.inr (.inl hk))⟩
  | call hk _ _ _ _ => exact ⟨_, _, rfl, .inr (.inr (.inl hk))⟩
  | parentheses hp _ _ => exact ⟨_, _, rfl, .inr (.inr (.inr (.inl hp)))⟩
  | unary hop _ => exact ⟨_, _, rfl, .inr (.inr (.inr (.inr ⟨_, hop⟩)))⟩

theorem IsBinary.starts {p : Nat} {o : Bool} {ts : List Token} {e : Expr} (h : IsBinary p o ts e) :
    ∃ t ts', ts = t :: ts' ∧ Starts t := by
  match h with
  | .operand h => exact h.starts
  | .tighter _ h => exact h.starts
  | .operator hl _ _ =>
    obtain ⟨t, ts', rfl, ht⟩ := hl.starts
    exact ⟨t, _, rfl, ht⟩

theorem IsExpression.starts (h : IsExpression o ts e) : ∃ t ts', ts = t :: ts' ∧ Starts t := by
  cases h with
  | operators h => exact h.starts
  | ternary hc _ _ _ _ =>
    obtain ⟨t, ts', rfl, ht⟩ := hc.starts
    exact ⟨t, _, rfl, ht⟩

theorem IsExpression.length_pos (h : IsExpression o ts e) : 0 < ts.length := by
  obtain ⟨t, ts', rfl, -⟩ := h.starts
  exact Nat.succ_pos _

theorem IsArgumentList.starts {es : List Expr} (h : IsArgumentList ts es) :
    ∃ t ts', ts = t :: ts' ∧ Starts t := by
  cases h with
  | last h => exact h.starts
  | more h _ _ =>
    obtain ⟨t, ts', rfl, ht⟩ := h.starts
    exact ⟨t, _, rfl, ht⟩

end First

end RuleLang.Grammar
