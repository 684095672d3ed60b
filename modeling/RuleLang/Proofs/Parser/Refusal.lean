import RuleLang.Proofs.Parser.Lookahead

/-!
# The token that cannot continue

A reader that fails stops before a token. The tokens before it could still become what the reader looks for, and
with that token nothing can be read any more, whatever follows it. The only other way to fail is to spend the
budget, and every level of the budget takes a token.
-/

namespace RuleLang.Parser

open RuleLang.Grammar

variable {ι α : Type} {n spent stop : Nat} {stop' : ι → Nat} {P Q stuck stuck' : List Token → Prop}
  {err : SyntaxError} {ts used rest rest' : List Token}

/-- None of the readers of a family reads anything. -/
def Stuck {bound : List Token → Nat} (reads : ι → (ts : List Token) → Except SyntaxError (Parsed α (bound ts)))
    (ts : List Token) : Prop :=
  ∀ i a rest, ¬Reads (reads i ts) a rest

/-- What is known of a reader that fails between `used` and `rest`, where it looks for tokens with the property `P`:
`stuck` says that no reading of these tokens will come to anything. -/
structure Refusal (P : List Token → Prop) (spent stop : Nat) (stuck : List Token → Prop) (err : SyntaxError)
    (used rest : List Token) : Prop where
  place : err.position = place stop rest
  viable : ∃ more, P (used ++ more)
  deep : err.fault = .nestedTooDeeply → spent ≤ used.length
  stuck : err.fault ≠ .nestedTooDeeply → ∀ rest', rest'.head? = rest.head? → stuck (used ++ rest')
  number : ∀ text, err.fault = .invalidNumber text → ∃ t ∈ rest, t.kind = .number ∧ Number.read? t.text = none

def Refuses (P : List Token → Prop) (spent stop : Nat) (stuck : List Token → Prop) (ts : List Token)
    (err : SyntaxError) : Prop :=
  ∃ used rest, ts = used ++ rest ∧ Refusal P spent stop stuck err used rest

/-- Whenever `read` fails, it refuses a token with which none of the readers `read'` would read anything. -/
def Refusing {bound : List Token → Nat} (P : List Token → Prop) (spent stop : Nat)
    (read : (ts : List Token) → Except SyntaxError (Parsed α (bound ts)))
    (read' : ι → (ts : List Token) → Except SyntaxError (Parsed α (bound ts))) : Prop :=
  ∀ ⦃ts : List Token⦄ ⦃err : SyntaxError⦄, read ts = .error err → Refuses P spent stop (Stuck read') ts err

/-- The next token is refused for what it is. -/
theorem Refuses.next {fault : SyntaxFault} (used : List Token) (hdeep : fault ≠ .nestedTooDeeply)
    (hnumber : ∀ text, fault ≠ .invalidNumber text) (hviable : ∃ more, P (used ++ more))
    (hstuck : ∀ rest', rest'.head? = rest.head? → stuck (used ++ rest')) :
    Refuses P spent stop stuck (used ++ rest) ⟨fault, Parser.place stop rest⟩ :=
  ⟨used, rest, rfl, rfl, hviable, fun h => absurd h hdeep, fun _ => hstuck, fun text h => absurd h (hnumber text)⟩

/-- A reader that fails behind tokens that were read before it. -/
theorem Refuses.behind (first : List Token) {spent' : Nat} (h : Refuses P spent stop stuck ts err)
    (hviable : ∀ w, P w → ∃ more, Q (first ++ w ++ more)) (hspent : spent' ≤ first.length + spent)
    (hstuck : ∀ ts', ts'.head? = ts.head? → stuck ts' → stuck' (first ++ ts')) :
    Refuses Q spent' stop stuck' (first ++ ts) err := by
  obtain ⟨used, rest, rfl, h⟩ := h
  refine ⟨first ++ used, rest, by simp, h.place, ?_, ?_, ?_, h.number⟩
  · obtain ⟨more, hmore⟩ := h.viable
    obtain ⟨more', hmore'⟩ := hviable _ hmore
    exact ⟨more ++ more', by simpa using hmore'⟩
  · intro hfault
    have := h.deep hfault
    rw [List.length_append]
    omega
  · intro hfault rest' hhead
    rw [List.append_assoc]
    exact hstuck _ (head?_append_congr used hhead) (h.stuck hfault rest' hhead)

/-- Behind a token the next reader is one level deeper, so the depth it lacks is paid for. -/
theorem Refuses.deeper (first : List Token) (hfirst : first ≠ []) (h : Refuses P spent stop stuck ts err)
    (hviable : ∀ w, P w → ∃ more, Q (first ++ w ++ more))
    (hstuck : ∀ ts', ts'.head? = ts.head? → stuck ts' → stuck' (first ++ ts')) :
    Refuses Q (spent + 1) stop stuck' (first ++ ts) err := by
  have hlength := List.length_pos_iff.2 hfirst
  exact h.behind first hviable (by omega) hstuck

/-- A reader that fails at once is refused as part of any other one that starts with it. -/
theorem Refuses.first {spent' : Nat} (h : Refuses P spent stop stuck ts err)
    (hviable : ∀ w, P w → ∃ more, Q (w ++ more)) (hspent : spent' ≤ spent)
    (hstuck : ∀ ts', ts'.head? = ts.head? → stuck ts' → stuck' ts') : Refuses Q spent' stop stuck' ts err :=
  h.behind [] hviable (by simpa using hspent) hstuck

/-- A primary that may stand wherever one is missing. -/
def filler : Token := ⟨.string, "", 0⟩

theorem isPrimary_filler : IsPrimary false [filler] (.string "") := .string rfl

theorem derives_filler : Derives [filler] (.string "") :=
  ⟨false, .operators ((IsBinary.operand isPrimary_filler).loosen (by decide) (by decide))⟩

/-- A punctuation mark that may stand wherever it is missing. -/
def mark (symbol : String) : Token := ⟨.punctuation, symbol, 0⟩

theorem isPunctuation_mark (symbol : String) : (mark symbol).isPunctuation symbol :=
  Token.isPunctuation_iff.2 ⟨rfl, rfl⟩

section Operators

variable {operand : Parser Expr} {operand' : ι → Parser Expr} {least q : Nat} {left : Expr} {ls : List Token} {o : Bool}

/-- An operand that fails inside a run of operators. -/
theorem climb_refuses_of (hsound : SoundPrimary operand) (hsteady : ∀ i, Steady operand (operand' i))
    (hrefuses : Refusing (fun w => ∃ o e, IsPrimary o w e) spent stop operand operand') (hleast : least ≤ 7)
    (hon : ∀ mid left ls o, mid.length < ts.length → climbOn operand least left mid = .error err →
      IsBinary 7 o ls left → (o = true → Settled mid) →
      Refuses (fun w => ∃ o e, IsBinary (max 1 least) o (ls ++ w) e) spent stop
        (Stuck fun i => climbOn (operand' i) least left) mid err)
    (h : climb operand least ts = .error err) :
    Refuses (fun w => ∃ o e, IsBinary (max 1 least) o w e) spent stop
      (Stuck fun i => climb (operand' i) least) ts err := by
  rcases climb_eq_error h with hfirst | ⟨left, mid, hfirst, hfail⟩
  · refine (hrefuses hfirst).first ?_ (Nat.le_refl _) ?_
    · intro w ⟨o, e, hw⟩
      refine ⟨[], o, e, ?_⟩
      rw [List.append_nil]
      exact (IsBinary.operand hw).loosen (by omega) (by omega)
    · intro ts' _ hstuck i e rest hr
      obtain ⟨left, mid, hleft, -⟩ := reads_climb.1 hr
      exact hstuck i left mid hleft
  · have hshort := hfirst.length_lt
    obtain ⟨o, ps, rfl, hps, ho⟩ := hsound hfirst
    refine (hon mid left ps o hshort hfail (.operand hps) ho).behind ps ?_ (by omega) ?_
    · intro w ⟨o', e, hw⟩
      exact ⟨[], o', e, by simpa using hw⟩
    · intro ts' hhead hstuck i e rest hr
      obtain ⟨left', mid', hleft, hon⟩ := reads_climb.1 hr
      obtain ⟨rfl, rfl⟩ := hleft.unique ((hsteady i).again hfirst hhead)
      exact hstuck i e rest hon

/-- Climbing on from a derived left operand. The invariant is the one of soundness: the next operator, if there is
one, binds no tighter than what was read so far. -/
theorem climbOn_refuses (hsound : SoundPrimary operand) (hsteady : ∀ i, Steady operand (operand' i))
    (hrefuses : Refusing (fun w => ∃ o e, IsPrimary o w e) spent stop operand operand')
    (h : climbOn operand least left ts = .error err) (hleft : IsBinary q o ls left) (hq : 1 ≤ q) (hleast : least ≤ q)
    (ho : o = true → Settled ts) (hbelow : Below (q + 1) ts) :
    Refuses (fun w => ∃ o e, IsBinary (max 1 least) o (ls ++ w) e) spent stop
      (Stuck fun i => climbOn (operand' i) least left) ts err := by
  induction hn : ts.length using Nat.strongRecOn generalizing ts ls left least q o with
  | ind n ih =>
  subst hn
  obtain ⟨t, mid, op, rfl, ht, hop, hfail⟩ := climbOn_eq_error h
  have hlevel : op.precedence ≤ q := Nat.lt_succ_iff.1 (hbelow t rfl op ht)
  have hclosed : o = false := by
    cases o with
    | false => rfl
    | true => exact absurd ht (ho rfl).not_operator
  subst hclosed
  have htight := precedence_le op
  rcases hfail with hfail | ⟨right, behind, hright, hfail⟩
  · -- the right operand fails, and whatever it could become is an operand of `t`
    have hpart := climb_refuses_of hsound hsteady hrefuses (by omega) (fun mid' left' ls' o' hshort hfail' hleft' ho' =>
      ih mid'.length (by simp only [List.length_cons]; omega) hfail' hleft' (by omega) (by omega) ho'
        (below_operand mid') rfl) hfail
    refine hpart.behind [t] ?_ (by omega) ?_
    · intro w ⟨o, e, hw⟩
      have hwhole := IsBinary.operator (hleft.loosen (precedence_pos op) hlevel) (operator?_eq_some.1 ht)
        (hw.loosen (by omega) (by omega))
      exact ⟨[], o, _, by simpa using hwhole.loosen (by omega) (by have := precedence_pos op; omega)⟩
    · intro ts' _ hstuck i e rest hr
      obtain ⟨right, mid', hright, -⟩ := (reads_climbOn_operator ht hop).1 hr
      exact hstuck i right mid' hright
  · -- the loop goes on behind the right operand
    have hshort := hright.length_lt
    obtain ⟨o', q', rs, rfl, hb, hpos, hle, ho', hbelow'⟩ := climb_sound hsound (by omega) hright
    have hwhole := IsBinary.operator (hleft.loosen (precedence_pos op) hlevel) (operator?_eq_some.1 ht)
      (hb.loosen (by omega) hle)
    have hpart := ih behind.length (by simp only [List.length_cons]; omega) hfail hwhole (precedence_pos op) hop ho'
      hbelow' rfl
    refine hpart.behind (t :: rs) ?_ (by omega) ?_
    · intro w ⟨o, e, hw⟩
      exact ⟨[], o, e, by simpa using hw⟩
    · intro ts' hhead hstuck i e rest hr
      obtain ⟨right', mid', hright', hon⟩ := (reads_climbOn_operator ht hop).1 hr
      obtain ⟨rfl, rfl⟩ := hright'.unique ((climb_steady (hsteady i) _).again hright hhead)
      exact hstuck i e rest hon

theorem climb_refuses (hsound : SoundPrimary operand) (hsteady : ∀ i, Steady operand (operand' i))
    (hrefuses : Refusing (fun w => ∃ o e, IsPrimary o w e) spent stop operand operand') :
    Refusing (fun w => ∃ o e, IsBinary 1 o w e) spent stop (climb operand 0) (fun i => climb (operand' i) 0) :=
  fun _ _ h => climb_refuses_of hsound hsteady hrefuses (Nat.zero_le 7)
    (fun mid _ _ _ _ hfail hleft ho => climbOn_refuses hsound hsteady hrefuses hfail hleft (by omega) (by omega) ho
      (below_operand mid)) h

end Operators

section Forms

variable {operand whole : Parser Expr} {operand' whole' : ι → Parser Expr} {e : Expr} {t : Token}

/-- A reader of expressions of which all is known that the grammar and the next token decide. -/
structure Reliable (spent stop : Nat) (whole : Parser Expr) (whole' : ι → Parser Expr) : Prop where
  sound : SoundExpression whole
  steady : ∀ i, Steady whole (whole' i)
  refuses : Refusing (fun w => ∃ e, Derives w e) spent stop whole whole'

theorem Reliable.reads (h : Reliable spent stop whole whole') (hr : Reads (whole ts) e rest) :
    ∃ used, ts = used ++ rest ∧ Derives used e ∧
      ∀ i rest', rest'.head? = rest.head? → Reads (whole' i (used ++ rest')) e rest' := by
  obtain ⟨o, used, rfl, he, -⟩ := h.sound hr
  exact ⟨used, rfl, ⟨o, he⟩, fun i _ hhead => (h.steady i).again hr hhead⟩

theorem derives_ternary {cs ys ns : List Token} {question colon : Token} {c yes no : Expr}
    (hc : IsBinary 1 false cs c) (hquestion : question.isOperator "?") (hyes : Derives ys yes)
    (hcolon : colon.isOperator ":") (hno : Derives ns no) :
    Derives (cs ++ question :: (ys ++ colon :: ns)) (.ternary c yes no) := by
  obtain ⟨o, hyes⟩ := hyes
  obtain ⟨o', hno⟩ := hno
  exact ⟨o', .ternary hc hquestion hyes hcolon hno⟩

/-- Behind a question mark a ternary is read to its end. -/
theorem reads_ternary_question {condition : Parser Expr} {question : Token} {ys : List Token} {c : Expr}
    (hc : Reads (condition ts) c (question :: ys)) (hquestion : question.isOperator "?")
    (hr : Reads (ternary stop condition whole ts) e rest) :
    ∃ yes colon ns no, Reads (whole ys) yes (colon :: ns) ∧ colon.isOperator ":" ∧ Reads (whole ns) no rest := by
  rcases reads_ternary.1 hr with ⟨hc', hnone⟩ | ⟨c', question', ys', yes, colon, ns, no, hc', -, hyes, hcolon, hno, -⟩
  · obtain ⟨-, rfl⟩ := hc.unique hc'
    rw [hnone question rfl] at hquestion
    cases hquestion
  · obtain ⟨-, heq⟩ := hc.unique hc'
    cases heq
    exact ⟨yes, colon, ns, no, hyes, hcolon, hno⟩

theorem ternary_refuses (hsound : SoundPrimary operand) (hsteady : ∀ i, Steady operand (operand' i))
    (hrefuses : Refusing (fun w => ∃ o e, IsPrimary o w e) (spent + 1) stop operand operand')
    (h : Reliable spent stop whole whole') :
    Refusing (fun w => ∃ e, Derives w e) (spent + 1) stop (ternary stop (climb operand 0) whole)
      (fun i => ternary (stop' i) (climb (operand' i) 0) (whole' i)) := by
  intro ts err herr
  rcases ternary_eq_error herr with hfail | ⟨c, question, ys, hc, hquestion, hfail⟩
  · refine (climb_refuses hsound hsteady hrefuses hfail).first ?_ (Nat.le_refl _) ?_
    · intro w ⟨o, e, hw⟩
      exact ⟨[], e, o, .operators (by simpa using hw)⟩
    · intro ts' _ hstuck i e rest hr
      rcases reads_ternary.1 hr with ⟨hc, -⟩ | ⟨c, question, ys, yes, colon, ns, no, hc, -⟩
      · exact hstuck i e rest hc
      · exact hstuck i c _ hc
  obtain ⟨o, q, cs, rfl, hb, hpos, -, ho, -⟩ := climb_sound hsound (Nat.zero_le 7) hc
  have hclosed : o = false := by
    cases o with
    | false => rfl
    | true => exact absurd hquestion (by simp [(ho rfl question rfl).2])
  subst hclosed
  have hcondition := hb.loosen (Nat.le_refl 1) hpos
  have hagain (i : ι) (ys' : List Token) :
      Reads (climb (operand' i) 0 (cs ++ question :: ys')) c (question :: ys') :=
    (climb_steady (hsteady i) 0).again hc rfl
  have hcomplete {ys : List Token} {yes : Expr} (hyes : Derives ys yes) :
      ∃ e, Derives (cs ++ question :: (ys ++ [⟨.operator, ":", 0⟩, filler])) e :=
    ⟨_, derives_ternary hcondition hquestion hyes (by decide) derives_filler⟩
  rcases hfail with hfail | ⟨yes, mid, hyes, ⟨rfl, hmissing⟩ | ⟨colon, ns, rfl, hcolon, hfail⟩⟩
  · rw [List.append_cons]
    refine (h.refuses hfail).deeper (cs ++ [question]) (by simp) ?_ ?_
    · intro w ⟨e, hw⟩
      exact ⟨[⟨.operator, ":", 0⟩, filler], by simpa using hcomplete hw⟩
    · intro ts' _ hstuck i e rest hr
      rw [← List.append_cons] at hr
      obtain ⟨yes, colon, ns, no, hyes, -⟩ := reads_ternary_question (hagain i ts') hquestion hr
      exact hstuck i yes _ hyes
  · obtain ⟨us, rfl, hu, hus⟩ := h.reads hyes
    rw [← List.cons_append, ← List.append_assoc]
    refine Refuses.next (cs ++ question :: us) nofun nofun ?_ ?_
    · exact ⟨[⟨.operator, ":", 0⟩, filler], by simpa using hcomplete hu⟩
    · intro rest' hhead i e rest hr
      rw [List.append_assoc, List.cons_append] at hr
      obtain ⟨yes', colon, ns, no, hyes', hc', -⟩ := reads_ternary_question (hagain i _) hquestion hr
      obtain ⟨-, rfl⟩ := (hus i rest' hhead).unique hyes'
      rw [hmissing colon (hhead ▸ rfl)] at hc'
      cases hc'
  · obtain ⟨us, rfl, hu, hus⟩ := h.reads hyes
    have hsplit (zs : List Token) :
        cs ++ question :: (us ++ colon :: zs) = cs ++ question :: (us ++ [colon]) ++ zs := by simp
    rw [hsplit]
    refine (h.refuses hfail).deeper (cs ++ question :: (us ++ [colon])) (by simp) ?_ ?_
    · intro w ⟨e, hw⟩
      exact ⟨[], _, by simpa using derives_ternary hcondition hquestion hu hcolon hw⟩
    · intro ts' _ hstuck i e rest hr
      rw [← hsplit] at hr
      obtain ⟨yes', colon', ns', no, hyes', -, hno⟩ := reads_ternary_question (hagain i _) hquestion hr
      obtain ⟨-, heq⟩ := (hus i (colon :: ts') rfl).unique hyes'
      cases heq
      exact hstuck i no _ hno

/-- A list of arguments that fails, in an expression or behind one. -/
theorem argumentList_refuses (stop' : ι → Nat) (h : Reliable spent stop whole whole') :
    Refusing (fun w => ∃ es, IsArgumentList w es) spent stop (argumentList stop whole)
      (fun i => argumentList (stop' i) (whole' i)) := by
  intro ts err herr
  induction hn : ts.length using Nat.strongRecOn generalizing ts with
  | ind n ih =>
  subst hn
  rcases argumentList_eq_error herr with hfail | ⟨e, mid, he, ⟨rfl, hmissing⟩ | ⟨comma, more, rfl, hcomma, hfail⟩⟩
  · refine (h.refuses hfail).first ?_ (Nat.le_refl _) ?_
    · intro w ⟨e, o, hw⟩
      exact ⟨[], [e], .last (o := o) (by simpa using hw)⟩
    · intro ts' _ hstuck i es rest hr
      obtain ⟨e, t, mid, he, -⟩ := reads_argumentList.1 hr
      exact hstuck i e _ he
  · obtain ⟨used, rfl, ⟨o, hw⟩, hused⟩ := h.reads he
    refine Refuses.next used nofun nofun ⟨[], [e], .last (o := o) (by simpa using hw)⟩ ?_
    intro rest' hhead i es rest hr
    obtain ⟨e', t, mid', he', hnext⟩ := reads_argumentList.1 hr
    obtain ⟨-, rfl⟩ := (hused i rest' hhead).unique he'
    obtain ⟨hcomma, hclose⟩ := hmissing t (hhead ▸ rfl)
    rcases hnext with ⟨ht, -⟩ | ⟨ht, -⟩
    · rw [hcomma] at ht
      cases ht
    · rw [hclose] at ht
      cases ht
  · have hshort := he.length_lt
    obtain ⟨used, rfl, ⟨o, hw⟩, hused⟩ := h.reads he
    rw [List.append_cons]
    refine (ih more.length (by simp; omega) hfail rfl).behind (used ++ [comma]) ?_ (by omega) ?_
    · intro w ⟨es, hes⟩
      exact ⟨[], e :: es, by simpa using IsArgumentList.more hw hcomma hes⟩
    · intro ts' _ hstuck i es rest hr
      rw [← List.append_cons] at hr
      obtain ⟨e', t, mid', he', hnext⟩ := reads_argumentList.1 hr
      obtain ⟨-, heq⟩ := (hused i (comma :: ts') rfl).unique he'
      cases heq
      rcases hnext with ⟨-, es', hes, -⟩ | ⟨ht, -⟩
      · exact hstuck i es' _ hes
      · rw [Token.isPunctuation_ne ")" hcomma (by decide)] at ht
        cases ht

theorem arguments_refuses (stop' : ι → Nat) (h : Reliable spent stop whole whole') :
    Refusing (fun w => ∃ es, IsArguments w es) spent stop (arguments stop whole)
      (fun i => arguments (stop' i) (whole' i)) := by
  intro ts err herr
  obtain ⟨hfail, hopen⟩ := arguments_eq_error herr
  refine (argumentList_refuses stop' h hfail).first ?_ (Nat.le_refl _) ?_
  · intro w ⟨es, hw⟩
    exact ⟨[], es, .some (by simpa using hw)⟩
  · intro ts' hhead hstuck i es rest hr
    rcases reads_arguments.1 hr with ⟨t, rfl, ht, -⟩ | ⟨-, hlist⟩
    · rw [hopen t (hhead ▸ rfl)] at ht
      cases ht
    · exact hstuck i es rest hlist

end Forms

end RuleLang.Parser
