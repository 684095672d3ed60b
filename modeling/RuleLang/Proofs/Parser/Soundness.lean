import RuleLang.Proofs.Parser.Grammar
import RuleLang.Proofs.Parser.Reading

/-!
# What the parser reads is derived by the grammar

Every reader takes tokens from the front that the grammar derives, and it stops where the grammar may stop. The
induction is on the budget of nested levels; the loops inside one level go by the number of tokens.
-/

namespace RuleLang.Grammar

open RuleLang.Parser

/-- No binary operator of the given precedence or a tighter one comes next. -/
def Below (p : Nat) (rest : List Token) : Prop :=
  ∀ t ∈ rest.head?, ∀ op, operator? t = some op → op.precedence < p

/-- Nothing comes next that would go on with the body of a lambda. -/
def Settled (rest : List Token) : Prop :=
  ∀ t ∈ rest.head?, operator? t = none ∧ t.isOperator "?" = false

theorem operator?_eq_some {t : Token} {op : BinaryOp} : operator? t = some op ↔ t.isOperator op.symbol := by
  rw [operator?, Token.isOperator_iff]
  constructor
  · intro h
    split at h
    · next hk => exact ⟨hk, (BinaryOp.symbol_of_ofSymbol? h).symm⟩
    · cases h
  · rintro ⟨hk, ht⟩
    rw [if_pos hk, ht, BinaryOp.ofSymbol?_symbol]

theorem precedence_pos (op : BinaryOp) : 1 ≤ op.precedence := by
  cases op <;> decide

theorem precedence_le (op : BinaryOp) : op.precedence ≤ 6 := by
  cases op <;> decide

/-- Behind a single operand there is no tighter operator. -/
theorem below_operand (rest : List Token) : Below (7 + 1) rest :=
  fun _ _ op _ => by have := precedence_le op; omega

theorem Settled.not_operator {t : Token} {ts : List Token} {op : BinaryOp} (h : Settled (t :: ts)) :
    operator? t ≠ some op := by
  rw [(h t rfl).1]
  exact nofun

/-- A reader of expressions takes tokens of an expression and stops where no lambda would go on. -/
def SoundExpression (read : Parser Expr) : Prop :=
  ∀ {ts rest : List Token} {e : Expr}, Reads (read ts) e rest →
    ∃ o used, ts = used ++ rest ∧ IsExpression o used e ∧ Settled rest

/-- A reader of primaries takes tokens of a primary and stops where its last lambda would not go on. -/
def SoundPrimary (read : Parser Expr) : Prop :=
  ∀ {ts rest : List Token} {e : Expr}, Reads (read ts) e rest →
    ∃ o used, ts = used ++ rest ∧ IsPrimary o used e ∧ (o = true → Settled rest)

section Operators

variable {operand : Parser Expr} {ts rest ls : List Token} {left e : Expr} {least q : Nat} {o : Bool}

/-- Climbing on from a derived left operand reads a derived operand. The invariant of the loop is that the next
operator, if there is one, binds no tighter than what was read so far. -/
theorem climbOn_sound (hop : SoundPrimary operand) (hr : Reads (climbOn operand least left ts) e rest)
    (hleft : IsBinary q o ls left) (hq : 1 ≤ q) (hleast : least ≤ q) (ho : o = true → Settled ts)
    (hbelow : Below (q + 1) ts) :
    ∃ o' q' used, ts = used ++ rest ∧ IsBinary q' o' (ls ++ used) e ∧ 1 ≤ q' ∧ least ≤ q' ∧
      (o' = true → Settled rest) ∧ Below least rest := by
  induction hn : ts.length using Nat.strongRecOn generalizing ts rest ls left e least q o with
  | ind n ih =>
  cases ts with
  | nil =>
    obtain ⟨rfl, rfl⟩ := reads_climbOn_nil.1 hr
    exact ⟨o, q, [], rfl, by simpa using hleft, hq, hleast, ho, by simp [Below]⟩
  | cons t ts =>
    by_cases hgo : ∃ op, operator? t = some op ∧ least ≤ op.precedence
    · obtain ⟨op, ht, hop'⟩ := hgo
      obtain ⟨right, mid, hright, hon⟩ := (reads_climbOn_operator ht hop').1 hr
      obtain ⟨first, mid₀, hfirst, hclimb⟩ := reads_climb.1 hright
      have hclosed : o = false := by
        cases o with
        | false => rfl
        | true => exact absurd ht (ho rfl).not_operator
      have hlevel : op.precedence ≤ q := Nat.lt_succ_iff.1 (hbelow t rfl op ht)
      subst hclosed
      obtain ⟨o₁, ps, rfl, hp, ho₁⟩ := hop hfirst
      have hshort := hfirst.length_lt
      simp only [List.length_cons] at hn
      -- the right operand: a primary with all operators that bind more tightly
      obtain ⟨o₂, q₂, rs, rfl, hb, hq₂, hlow, ho₂, hstop⟩ :=
        ih mid₀.length (by omega) hclimb (.operand hp) (by omega) (by have := precedence_le op; omega)
          ho₁ (below_operand _) rfl
      have hwhole := IsBinary.operator (hleft.loosen (precedence_pos op) hlevel) (operator?_eq_some.1 ht)
        (hb.loosen (by omega) hlow)
      obtain ⟨o', q', used, rfl, hb', hq', hleast', ho', hstop'⟩ :=
        ih mid.length (by simp at hshort hn; omega) hon hwhole (precedence_pos op) hop' ho₂ hstop rfl
      refine ⟨o', q', t :: (ps ++ rs ++ used), by simp, ?_, hq', hleast', ho', hstop'⟩
      simpa using hb'
    · have hstop : ∀ op, operator? t = some op → op.precedence < least :=
        fun op ht => Nat.not_le.1 fun hge => hgo ⟨op, ht, hge⟩
      obtain ⟨rfl, rfl⟩ := (reads_climbOn_stop hstop).1 hr
      refine ⟨o, q, [], rfl, by simpa using hleft, hq, hleast, ho, ?_⟩
      intro t' ht' op hop'
      cases ht'
      exact hstop op hop'

theorem climb_sound (hop : SoundPrimary operand) (hleast : least ≤ 7) (hr : Reads (climb operand least ts) e rest) :
    ∃ o q used, ts = used ++ rest ∧ IsBinary q o used e ∧ 1 ≤ q ∧ least ≤ q ∧ (o = true → Settled rest) ∧
      Below least rest := by
  obtain ⟨first, mid, hfirst, hon⟩ := reads_climb.1 hr
  obtain ⟨o, ps, rfl, hp, ho⟩ := hop hfirst
  obtain ⟨o', q, used, rfl, hb, hq, hleast', ho', hstop⟩ :=
    climbOn_sound hop hon (.operand hp) (by omega) hleast ho (below_operand _)
  exact ⟨o', q, ps ++ used, by simp, hb, hq, hleast', ho', hstop⟩

end Operators

section Forms

variable {stop : Nat} {condition whole operand : Parser Expr} {ts rest : List Token} {e : Expr}

theorem ternary_sound (hop : SoundPrimary operand) (hwhole : SoundExpression whole) :
    SoundExpression (ternary stop (climb operand 0) whole) := by
  intro ts rest e hr
  rcases reads_ternary.1 hr with ⟨hc, hq⟩ | ⟨c, t, ys, yes, colon, ns, no, hc, hq, hyes, hcolon, hno, rfl⟩
  · obtain ⟨o, q, used, rfl, hb, hpos, -, -, hbelow⟩ := climb_sound hop (Nat.zero_le 7) hc
    refine ⟨o, used, rfl, .operators (hb.loosen (Nat.le_refl 1) hpos), fun t ht => ⟨?_, hq t ht⟩⟩
    cases hop : operator? t with
    | none => rfl
    | some op => exact absurd (hbelow t ht op hop) (Nat.not_lt_zero _)
  · obtain ⟨o, q, cs, rfl, hb, hpos, -, ho, -⟩ := climb_sound hop (Nat.zero_le 7) hc
    obtain ⟨o₁, used₁, rfl, hy, -⟩ := hwhole hyes
    obtain ⟨o₂, used₂, rfl, hn, hset⟩ := hwhole hno
    have hclosed : o = false := by
      cases o with
      | false => rfl
      | true =>
        have := (ho rfl t rfl).2
        rw [hq] at this
        cases this
    subst hclosed
    have hcondition := hb.loosen (Nat.le_refl 1) hpos
    exact ⟨o₂, cs ++ t :: (used₁ ++ colon :: used₂), by simp, .ternary hcondition hq hy hcolon hn, hset⟩

theorem argumentList_sound (hwhole : SoundExpression whole) {es : List Expr}
    (hr : Reads (argumentList stop whole ts) es rest) :
    ∃ used close, ts = used ++ close :: rest ∧ IsArgumentList used es ∧ close.isPunctuation ")" := by
  induction hn : ts.length using Nat.strongRecOn generalizing ts es with
  | ind n ih =>
  obtain ⟨e, t, mid, he, ⟨hcomma, more, hmore, rfl⟩ | ⟨hclose, rfl, rfl⟩⟩ := reads_argumentList.1 hr
  · obtain ⟨o, used, rfl, hexp, -⟩ := hwhole he
    have hshort := he.length_lt
    obtain ⟨used', close, rfl, hlist, hc⟩ := ih mid.length (by simp at hn; omega) hmore rfl
    exact ⟨used ++ t :: used', close, by simp, .more hexp hcomma hlist, hc⟩
  · obtain ⟨o, used, rfl, hexp, -⟩ := hwhole he
    exact ⟨used, t, rfl, .last hexp, hclose⟩

theorem arguments_sound (hwhole : SoundExpression whole) {es : List Expr}
    (hr : Reads (arguments stop whole ts) es rest) :
    ∃ used close, ts = used ++ close :: rest ∧ IsArguments used es ∧ close.isPunctuation ")" := by
  rcases reads_arguments.1 hr with ⟨t, rfl, ht, rfl⟩ | ⟨-, hlist⟩
  · exact ⟨[], t, rfl, .none, ht⟩
  · obtain ⟨used, close, rfl, h, hc⟩ := argumentList_sound hwhole hlist
    exact ⟨used, close, rfl, .some h, hc⟩

/-- A path reads steps, and after them it is a reference or a call. -/
theorem path_sound (hwhole : SoundExpression whole) {root : String} {segments : List Segment}
    (hr : Reads (path stop whole root segments ts) e rest) :
    ∃ ss steps, IsPath steps ss ∧
      ((ts = steps ++ rest ∧ continuesPath rest = false ∧ e = .reference root (segments ++ ss)) ∨
        ∃ opening as args closing, ts = steps ++ opening :: (as ++ closing :: rest) ∧
          opening.isPunctuation "(" ∧ IsArguments as args ∧ closing.isPunctuation ")" ∧
          e = .call (pathText root (segments ++ ss)) args) := by
  induction hn : ts.length using Nat.strongRecOn generalizing ts segments with
  | ind n ih =>
  by_cases hend : continuesPath ts = false
  · obtain ⟨rfl, rfl⟩ := (reads_path_end hend).1 hr
    exact ⟨[], [], .nil, .inl ⟨rfl, hend, by simp⟩⟩
  cases ts with
  | nil => simp [continuesPath] at hend
  | cons t ts =>
  simp only [continuesPath, Bool.not_eq_false, Bool.or_eq_true] at hend
  rcases hend with (hdot | hbracket) | hopen
  · obtain ⟨name, mid, rfl, hname, hrest⟩ := (reads_path_property hdot).1 hr
    obtain ⟨ss, steps, hsteps, hcase⟩ := ih mid.length (by simp at hn; omega) hrest rfl
    refine ⟨_ :: ss, t :: name :: steps, .property hdot hname hsteps, ?_⟩
    rcases hcase with ⟨rfl, hend, rfl⟩ | ⟨opening, as, args, closing, rfl, ho, has, hc, rfl⟩
    · exact .inl ⟨by simp, hend, by simp⟩
    · exact .inr ⟨opening, as, args, closing, by simp, ho, has, hc, by simp⟩
  · obtain ⟨index, close, mid, hindex, hclose, hrest⟩ := (reads_path_index hbracket).1 hr
    obtain ⟨o, used, rfl, hexp, -⟩ := hwhole hindex
    obtain ⟨ss, steps, hsteps, hcase⟩ := ih mid.length (by simp at hn; omega) hrest rfl
    refine ⟨_ :: ss, t :: (used ++ close :: steps), .index hbracket hexp hclose hsteps, ?_⟩
    rcases hcase with ⟨rfl, hend, rfl⟩ | ⟨opening, as, args, closing, rfl, ho, has, hc, rfl⟩
    · exact .inl ⟨by simp, hend, by simp⟩
    · exact .inr ⟨opening, as, args, closing, by simp, ho, has, hc, by simp⟩
  · obtain ⟨args, hargs, rfl⟩ := (reads_path_call hopen).1 hr
    obtain ⟨used, close, rfl, h, hc⟩ := arguments_sound hwhole hargs
    exact ⟨[], [], .nil, .inr ⟨t, used, args, close, rfl, hopen, h, hc, by simp⟩⟩

theorem booleanName?_eq_none {name : String} :
    booleanName? name = none ↔ name ≠ "true" ∧ name ≠ "false" := by
  unfold booleanName?
  split
  · simp [*]
  · split <;> simp [*]

theorem named_sound (hwhole : SoundExpression whole) {t : Token} (ht : t.kind = .identifier)
    (hr : Reads (named stop whole t.text ts) e rest) :
    ∃ o used, t :: ts = used ++ rest ∧ IsPrimary o used e ∧ (o = true → Settled rest) := by
  by_cases harrow : ∀ a ∈ ts.head?, a.isOperator "=>" = false
  · by_cases hpath : booleanName? t.text = none ∨ continuesPath ts
    · rw [reads_named_path hpath harrow] at hr
      obtain ⟨ss, steps, hsteps, ⟨rfl, hend, rfl⟩ | ⟨opening, as, args, closing, rfl, ho, has, hc, rfl⟩⟩ :=
        path_sound hwhole hr
      · refine ⟨false, t :: steps, by simp, .reference ht hsteps ?_, by simp⟩
        rintro rfl
        exact booleanName?_eq_none.1 (hpath.resolve_right (by simp [hend]))
      · exact ⟨false, _, by simp, .call ht hsteps ho has hc, by simp⟩
    · obtain ⟨hname, hend⟩ := not_or.1 hpath
      obtain ⟨x, hx⟩ := Option.ne_none_iff_exists'.1 hname
      obtain ⟨rfl, rfl⟩ := (reads_named_truth hx harrow (by simpa using hend)).1 hr
      refine ⟨false, [t], rfl, ?_, by simp⟩
      unfold booleanName? at hx
      split at hx
      · next hyes =>
        cases hx
        exact .yes ht hyes
      · split at hx
        · next hno =>
          cases hx
          exact .no ht hno
        · cases hx
  · cases ts with
    | nil => simp at harrow
    | cons arrow ts =>
    have ha : arrow.isOperator "=>" := by simpa using harrow
    obtain ⟨body, hbody, rfl⟩ := (reads_named_lambda ha).1 hr
    obtain ⟨o, used, rfl, hexp, hset⟩ := hwhole hbody
    exact ⟨true, t :: arrow :: used, by simp, .lambda ht ha hexp, fun _ => hset⟩

theorem primaryForm_sound (hwhole : SoundExpression whole) (hop : SoundPrimary operand) :
    SoundPrimary (primaryForm stop whole operand) := by
  intro ts rest e hr
  obtain ⟨t, ts, rfl, hnum | hstr | hname | hparen | ⟨op, hsign⟩⟩ := starts_of_reads_primary hr
  · obtain ⟨x, hx, rfl, rfl⟩ := (reads_primary_number hnum).1 hr
    exact ⟨false, [t], rfl, .number hnum hx, by simp⟩
  · obtain ⟨rfl, rfl⟩ := (reads_primary_string hstr).1 hr
    exact ⟨false, [t], rfl, .string hstr, by simp⟩
  · exact named_sound hwhole hname ((reads_primary_name hname).1 hr)
  · obtain ⟨close, hinside, hclose⟩ := (reads_primary_parentheses hparen).1 hr
    obtain ⟨o, used, rfl, hexp, -⟩ := hwhole hinside
    exact ⟨false, t :: (used ++ [close]), by simp, .parentheses hparen hexp hclose, by simp⟩
  · obtain ⟨inner, hinner, rfl⟩ := (reads_primary_unary hsign).1 hr
    obtain ⟨o, used, rfl, hp, hset⟩ := hop hinner
    exact ⟨o, t :: used, by simp, .unary hsign hp, hset⟩

end Forms

variable {stop : Nat}

theorem not_reads_tooDeep {ts rest : List Token} {e : Expr} : ¬Reads (tooDeep stop ts) e rest :=
  reads_error

/-- Whatever the budget, expressions and primaries are read as the grammar has them. -/
theorem sound (stop budget : Nat) :
    SoundExpression (expression stop budget) ∧ SoundPrimary (primary stop budget) := by
  induction budget with
  | zero =>
    have he : SoundExpression (expression stop 0) := by
      intro ts rest e hr
      rw [expression_zero] at hr
      exact absurd hr not_reads_tooDeep
    refine ⟨he, ?_⟩
    rw [primary_zero]
    exact primaryForm_sound he (fun hr => absurd hr not_reads_tooDeep)
  | succ budget ih =>
    have he : SoundExpression (expression stop (budget + 1)) := by
      rw [expression_succ]
      exact ternary_sound ih.2 ih.1
    refine ⟨he, ?_⟩
    rw [primary_succ]
    exact primaryForm_sound he ih.2

end RuleLang.Grammar
