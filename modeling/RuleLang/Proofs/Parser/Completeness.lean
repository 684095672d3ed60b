import RuleLang.Proofs.Parser.Soundness

/-!
# What the grammar derives is read by the parser

The tokens of a derivation, followed by a token that could not belong to them, are read to the tree of the
derivation, with a budget of one level for each token. Together with soundness the parser accepts exactly the
grammar, and a sequence of tokens has at most one tree.
-/

namespace RuleLang.Grammar

open RuleLang.Parser

/-- Nothing comes next that would go on with a path or make a parameter of a name. -/
structure Quiet (rest : List Token) : Prop where
  path : continuesPath rest = false
  arrow : ∀ t ∈ rest.head?, t.isOperator "=>" = false

section Continued

variable {o : Bool} {ts : List Token} {e : Expr}

theorem IsPath.continues {ss : List Segment} (h : IsPath ts ss) (rest : List Token) (hne : ts ≠ []) :
    continuesPath (ts ++ rest) := by
  cases h with
  | nil => exact absurd rfl hne
  | property hdot _ _ => simp [continuesPath, hdot]
  | index hopen _ _ _ => simp [continuesPath, hopen]

theorem IsPath.not_arrow {ss : List Segment} {rest : List Token} (h : IsPath ts ss)
    (hr : ∀ t ∈ rest.head?, t.isOperator "=>" = false) : ∀ t ∈ (ts ++ rest).head?, t.isOperator "=>" = false := by
  intro t ht
  cases h with
  | nil => exact hr t ht
  | property hdot _ _ =>
    cases ht
    exact Token.isOperator_of_kind _ (by simp [(Token.isPunctuation_iff.1 hdot).1])
  | index hopen _ _ _ =>
    cases ht
    exact Token.isOperator_of_kind _ (by simp [(Token.isPunctuation_iff.1 hopen).1])

end Continued

section Stops

variable {t : Token} {ts : List Token}

/-- A punctuation mark that opens nothing stops every expression. -/
theorem quiet_of_punctuation {mark : String} (h : t.isPunctuation mark) (hdot : mark ≠ ".")
    (hbracket : mark ≠ "[") (hopen : mark ≠ "(") : Quiet (t :: ts) where
  path := by
    simp only [continuesPath, Token.isPunctuation_ne "." h hdot, Token.isPunctuation_ne "[" h hbracket,
      Token.isPunctuation_ne "(" h hopen, Bool.or_self]
  arrow := by
    intro a ha
    cases ha
    exact Token.isOperator_of_kind _ (by simp [(Token.isPunctuation_iff.1 h).1])

theorem quiet_of_operator {symbol : String} (h : t.isOperator symbol) (hne : symbol ≠ "=>") :
    Quiet (t :: ts) where
  path := by
    have hk : t.kind ≠ .punctuation := by simp [(Token.isOperator_iff.1 h).1]
    simp only [continuesPath, Token.isPunctuation_of_kind _ hk, Bool.or_self]
  arrow := by
    intro a ha
    cases ha
    exact Token.isOperator_ne _ h hne

theorem settled_of_punctuation {mark : String} (h : t.isPunctuation mark) : Settled (t :: ts) := by
  intro a ha
  cases ha
  have hk := (Token.isPunctuation_iff.1 h).1
  exact ⟨by simp [operator?, hk], Token.isOperator_of_kind _ (by simp [hk])⟩

theorem settled_of_operator {symbol : String} (h : t.isOperator symbol) (hop : BinaryOp.ofSymbol? symbol = none)
    (hne : symbol ≠ "?") : Settled (t :: ts) := by
  intro a ha
  cases ha
  obtain ⟨hk, ht⟩ := Token.isOperator_iff.1 h
  exact ⟨by simp [operator?, hk, ht, hop], Token.isOperator_ne _ h hne⟩

theorem Settled.below {p : Nat} {rest : List Token} (h : Settled rest) : Below p rest := by
  intro t ht op hop
  rw [(h t ht).1] at hop
  cases hop

theorem symbol_ne_arrow (op : BinaryOp) : op.symbol ≠ "=>" := by
  cases op <;> decide

end Stops

/-- A primary opens its parentheses and its bodies within the same budget. -/
theorem primary_eq (stop budget : Nat) :
    ∃ operand, primary stop budget = primaryForm stop (expression stop budget) operand ∧
      ∀ b, budget = b + 1 → operand = primary stop b := by
  cases budget with
  | zero => exact ⟨_, primary_zero stop, nofun⟩
  | succ b =>
    refine ⟨_, primary_succ stop b, ?_⟩
    intro b' hb
    cases hb
    rfl

section Loops

variable {operand : Parser Expr} {least p : Nat} {left e : Expr} {rest : List Token}

theorem climbOn_of_below (h : Below least rest) : Reads (climbOn operand least left rest) left rest := by
  cases rest with
  | nil => exact reads_climbOn_nil.2 ⟨rfl, rfl⟩
  | cons t rest => exact (reads_climbOn_stop (h t rfl)).2 ⟨rfl, rfl⟩

end Loops

mutual

theorem expression_complete (stop budget : Nat) (rest : List Token) {o : Bool} {ts : List Token} {e : Expr}
    (h : IsExpression o ts e) (hb : ts.length ≤ budget) (hq : Quiet rest) (hs : Settled rest) :
    Reads (expression stop budget (ts ++ rest)) e rest := by
  obtain ⟨b, rfl⟩ := Nat.exists_eq_add_one_of_ne_zero (Nat.ne_of_gt (Nat.lt_of_lt_of_le h.length_pos hb))
  rw [expression_succ, reads_ternary]
  match h with
  | .operators h =>
    refine .inl ⟨?_, fun t ht => (hs t ht).2⟩
    exact binary_complete stop b h hb hq (fun _ => hs) hs.below (Nat.zero_le 1) (climbOn_of_below hs.below)
  | @IsExpression.ternary _ _ cs ys ns question colon _ yes _ hc hquestion hy hcolon hn =>
    simp only [List.length_append, List.length_cons] at hb
    have hnone : operator? question = none := by
      simp [operator?, (Token.isOperator_iff.1 hquestion).2, show BinaryOp.ofSymbol? "?" = none by decide]
    have hbelow (p : Nat) : Below p (question :: (ys ++ colon :: (ns ++ rest))) := by
      intro t ht op hop
      cases ht
      rw [hnone] at hop
      cases hop
    have hcondition := binary_complete stop b hc (by omega) (quiet_of_operator hquestion (by decide)) nofun
      (hbelow 2) (Nat.zero_le 1) (climbOn_of_below (hbelow 0))
    have hyes := expression_complete stop b (colon :: (ns ++ rest)) hy (by omega)
      (quiet_of_operator hcolon (by decide)) (settled_of_operator hcolon (by decide) (by decide))
    exact .inr ⟨_, question, _, _, colon, _, _, hcondition.congr (by simp), hquestion, hyes, hcolon,
      expression_complete stop b rest hn (by omega) hq hs, rfl⟩

theorem binary_complete (stop budget : Nat) {p least : Nat} {o : Bool} {ts rest rest' : List Token} {e e' : Expr}
    (h : IsBinary p o ts e) (hb : ts.length ≤ budget + 1) (hq : Quiet rest) (ho : o = true → Settled rest)
    (hbelow : Below (p + 1) rest) (hl : least ≤ p)
    (hr : Reads (climbOn (primary stop budget) least e rest) e' rest') :
    Reads (climb (primary stop budget) least (ts ++ rest)) e' rest' := by
  match h with
  | .operand h => exact reads_climb.2 ⟨e, rest, primary_complete stop budget h hb hq ho, hr⟩
  | .tighter _ h =>
    exact binary_complete stop budget h hb hq ho (fun t ht op hop => Nat.lt_succ_of_lt (hbelow t ht op hop))
      (Nat.le_succ_of_le hl) hr
  | @IsBinary.operator _ _ rs t op _ _ hleft ht hright =>
    simp only [List.length_append, List.length_cons] at hb
    have htop := operator?_eq_some.2 ht
    have hrest := binary_complete stop budget hright (by omega) hq ho
      (fun t ht op' hop => Nat.lt_succ_of_lt (hbelow t ht op' hop)) (Nat.le_refl _) (climbOn_of_below hbelow)
    have hon := (reads_climbOn_operator htop hl).2 ⟨_, rest, hrest, hr⟩
    have hnext : Below (op.precedence + 1) (t :: (rs ++ rest)) := by
      intro t' ht' op' hop'
      cases ht'
      rw [htop] at hop'
      cases hop'
      exact Nat.lt_succ_self _
    have hleft := binary_complete stop budget hleft (by omega) (quiet_of_operator ht (symbol_ne_arrow op)) nofun
      hnext hl hon
    exact hleft.congr (by simp)

theorem primary_complete (stop budget : Nat) {o : Bool} {ts rest : List Token} {e : Expr}
    (h : IsPrimary o ts e) (hb : ts.length ≤ budget + 1) (hq : Quiet rest) (ho : o = true → Settled rest) :
    Reads (primary stop budget (ts ++ rest)) e rest := by
  obtain ⟨operand, heq, hoperand⟩ := primary_eq stop budget
  rw [heq]
  match h with
  | .number hk hx => exact (reads_primary_number hk).2 ⟨_, hx, rfl, rfl⟩
  | .string hk => exact (reads_primary_string hk).2 ⟨rfl, rfl⟩
  | .yes hk ht =>
    refine (reads_primary_name hk).2 ((reads_named_truth ?_ hq.arrow hq.path).2 ⟨rfl, rfl⟩)
    rw [ht]
    rfl
  | .no hk ht =>
    refine (reads_primary_name hk).2 ((reads_named_truth ?_ hq.arrow hq.path).2 ⟨rfl, rfl⟩)
    rw [ht]
    rfl
  | .lambda hk harrow hbody =>
    simp only [List.length_cons] at hb
    refine (reads_primary_name hk).2 ((reads_named_lambda harrow).2 ⟨_, ?_, rfl⟩)
    exact expression_complete stop budget rest hbody (by omega) hq (ho rfl)
  | @IsPrimary.reference _ ts _ hk hpath hname =>
    simp only [List.length_cons] at hb
    refine (reads_primary_name hk).2 ((reads_named_path ?_ (hpath.not_arrow hq.arrow)).2 ?_)
    · cases ts with
      | nil => exact .inl (booleanName?_eq_none.2 (hname rfl))
      | cons t ts => exact .inr (hpath.continues rest nofun)
    · exact path_complete stop budget hpath (by omega) ((reads_path_end hq.path).2 ⟨rfl, rfl⟩)
  | @IsPrimary.call t opening closing ts as segments args hk hpath hopen hargs hclose =>
    simp only [List.length_append, List.length_cons, List.length_nil] at hb
    have hcall : Reads (path stop (expression stop budget) t.text ([] ++ segments)
        (opening :: (as ++ [closing]) ++ rest)) (.call (pathText t.text segments) args) rest :=
      (reads_path_call hopen).2 ⟨args, (arguments_complete stop budget hargs (by omega) hclose).congr (by simp), rfl⟩
    have hread := path_complete stop budget hpath (by omega) hcall
    have hquiet : ∀ t ∈ (opening :: (as ++ [closing]) ++ rest).head?, t.isOperator "=>" = false := by
      intro t ht
      cases ht
      exact Token.isOperator_of_kind _ (by simp [(Token.isPunctuation_iff.1 hopen).1])
    have hcontinues : continuesPath (ts ++ (opening :: (as ++ [closing]) ++ rest)) := by
      cases ts with
      | nil => simp [continuesPath, hopen]
      | cons t ts => exact hpath.continues _ nofun
    have harrow := hpath.not_arrow hquiet
    rw [← List.append_assoc] at hread hcontinues harrow
    exact (reads_primary_name hk).2 ((reads_named_path (.inr hcontinues) harrow).2 hread)
  | @IsPrimary.parentheses _ _ closing _ _ hopen hexp hclose =>
    simp only [List.length_append, List.length_cons, List.length_nil] at hb
    have hread := expression_complete stop budget (closing :: rest) hexp (by omega)
      (quiet_of_punctuation hclose (by decide) (by decide) (by decide)) (settled_of_punctuation hclose)
    exact (reads_primary_parentheses hopen).2 ⟨_, hread.congr (by simp), hclose⟩
  | .unary hop hp =>
    obtain ⟨t, ts', hts, -⟩ := hp.starts
    simp only [List.length_cons] at hb
    obtain ⟨b, rfl⟩ := Nat.exists_eq_add_one_of_ne_zero (show budget ≠ 0 by rintro rfl; simp [hts] at hb)
    refine (reads_primary_unary hop).2 ⟨_, ?_, rfl⟩
    rw [hoperand b rfl]
    exact primary_complete stop b hp (by omega) hq ho

theorem path_complete (stop budget : Nat) {root : String} {segments ss : List Segment} {ts rest rest' : List Token}
    {e : Expr} (h : IsPath ts ss) (hb : ts.length ≤ budget)
    (hr : Reads (path stop (expression stop budget) root (segments ++ ss) rest) e rest') :
    Reads (path stop (expression stop budget) root segments (ts ++ rest)) e rest' := by
  match h with
  | .nil => simpa using hr
  | .property hdot hname hpath =>
    simp only [List.length_cons] at hb
    refine (reads_path_property hdot).2 ⟨_, _, rfl, hname, ?_⟩
    exact path_complete stop budget hpath (by omega) (by simpa using hr)
  | @IsPath.index _ _ closing _ ts _ _ hopen hexp hclose hpath =>
    simp only [List.length_append, List.length_cons] at hb
    have hread := expression_complete stop budget (closing :: (ts ++ rest)) hexp (by omega)
      (quiet_of_punctuation hclose (by decide) (by decide) (by decide)) (settled_of_punctuation hclose)
    refine (reads_path_index hopen).2 ⟨_, _, _, hread.congr (by simp), hclose, ?_⟩
    exact path_complete stop budget hpath (by omega) (by simpa using hr)

theorem arguments_complete (stop budget : Nat) {close : Token} {ts rest : List Token} {es : List Expr}
    (h : IsArguments ts es) (hb : ts.length ≤ budget) (hc : close.isPunctuation ")") :
    Reads (arguments stop (expression stop budget) (ts ++ close :: rest)) es rest := by
  match h with
  | .none => exact reads_arguments.2 (.inl ⟨close, rfl, hc, rfl⟩)
  | .some hlist =>
    obtain ⟨t, ts', hts, ht⟩ := hlist.starts
    refine reads_arguments.2 (.inr ⟨?_, argumentList_complete stop budget hlist hb hc⟩)
    rw [hts]
    intro t' ht'
    cases ht'
    exact ht.not_punctuation (by decide)

theorem argumentList_complete (stop budget : Nat) {close : Token} {ts rest : List Token} {es : List Expr}
    (h : IsArgumentList ts es) (hb : ts.length ≤ budget) (hc : close.isPunctuation ")") :
    Reads (argumentList stop (expression stop budget) (ts ++ close :: rest)) es rest := by
  match h with
  | .last hexp =>
    have hread := expression_complete stop budget (close :: rest) hexp hb
      (quiet_of_punctuation hc (by decide) (by decide) (by decide)) (settled_of_punctuation hc)
    exact reads_argumentList.2 ⟨_, close, rest, hread, .inr ⟨hc, rfl, rfl⟩⟩
  | @IsArgumentList.more _ _ as comma _ _ hexp hcomma hlist =>
    simp only [List.length_append, List.length_cons] at hb
    have hread := expression_complete stop budget (comma :: (as ++ close :: rest)) hexp (by omega)
      (quiet_of_punctuation hcomma (by decide) (by decide) (by decide)) (settled_of_punctuation hcomma)
    exact reads_argumentList.2 ⟨_, _, _, hread.congr (by simp), .inl ⟨hcomma, _,
      argumentList_complete stop budget hlist (by omega) hc, rfl⟩⟩

end

theorem beforeEnd_inner {ts : List Token} (hts : ∀ t ∈ ts, Inner t) (more : List Token) :
    beforeEnd (ts ++ more) = ts ++ beforeEnd more :=
  List.takeWhile_append_of_pos (by simpa using hts)

theorem beforeEnd_append {ts : List Token} {marker : Token} (hts : ∀ t ∈ ts, Inner t)
    (hm : marker.kind = .endOfInput) : beforeEnd (ts ++ [marker]) = ts := by
  rw [beforeEnd_inner hts, beforeEnd]
  simp [hm]

/-- With a level for every token, the parser reads whole sequences of tokens as the grammar derives them. -/
theorem reads_expression_iff {stop budget : Nat} {ts : List Token} {e : Expr} (hb : ts.length ≤ budget) :
    Reads (expression stop budget ts) e [] ↔ Derives ts e := by
  constructor
  · intro hr
    obtain ⟨o, used, hts, h, -⟩ := (sound stop budget).1 hr
    rw [List.append_nil] at hts
    exact ⟨o, hts ▸ h⟩
  · rintro ⟨o, h⟩
    have hread := expression_complete stop budget [] h hb ⟨rfl, nofun⟩ nofun
    exact hread.congr (List.append_nil ts)

theorem parseTokens_eq_ok {maxDepth : Nat} {ts : List Token} {e : Expr} :
    parseTokens maxDepth ts = .ok e ↔ Reads (expression (endPlace ts) maxDepth (beforeEnd ts)) e [] := by
  rw [parseTokens]
  cases h : expression (endPlace ts) maxDepth (beforeEnd ts) with
  | error err => simp [bind, Except.bind]
  | ok p =>
    obtain ⟨v, rest, hlt⟩ := p
    cases rest with
    | nil => simp [bind, Except.bind]
    | cons t rest => simp [bind, Except.bind]

/-- The parser returns the trees that the grammar derives. -/
theorem parseTokens_iff {ts : List Token} {marker : Token} {maxDepth : Nat} {e : Expr}
    (hts : ∀ t ∈ ts, Inner t) (hm : marker.kind = .endOfInput) (hd : ts.length < maxDepth) :
    parseTokens maxDepth (ts ++ [marker]) = .ok e ↔ Derives ts e := by
  rw [parseTokens_eq_ok, beforeEnd_append hts hm]
  exact reads_expression_iff (Nat.le_of_lt hd)

/-- Tokens without an end marker among them derive at most one tree. -/
theorem Derives.unique {ts : List Token} {e e' : Expr} (hts : ∀ t ∈ ts, Inner t)
    (h : Derives ts e) (h' : Derives ts e') : e = e' := by
  obtain ⟨marker, hm⟩ : ∃ marker : Token, marker.kind = .endOfInput := ⟨⟨.endOfInput, "", 0⟩, rfl⟩
  have hparse := (parseTokens_iff hts hm (Nat.lt_succ_self ts.length)).2 h
  have hparse' := (parseTokens_iff hts hm (Nat.lt_succ_self ts.length)).2 h'
  exact Except.ok.inj (hparse.symm.trans hparse')

/--
The parser accepts exactly the grammar, and builds the one tree that the grammar derives. The tokens are any
that end with their only end marker, and the nesting may be deeper than there are tokens before it.
-/
theorem parseTokens_exact (ts : List Token) (marker : Token) (maxDepth : Nat)
    (hts : ∀ t ∈ ts, Inner t) (hm : marker.kind = .endOfInput) (hd : ts.length < maxDepth) :
    (∀ e, parseTokens maxDepth (ts ++ [marker]) = .ok e ↔ Derives ts e) ∧
      ∀ e e', Derives ts e → Derives ts e' → e = e' :=
  ⟨fun _ => parseTokens_iff hts hm hd, fun _ _ => Derives.unique hts⟩

/-- The tokens of `x => y` are read as a lambda. -/
theorem parseTokens_exact_lambda :
    parseTokens 4 ([⟨.identifier, "x", 0⟩, ⟨.operator, "=>", 2⟩, ⟨.identifier, "y", 5⟩] ++ [⟨.endOfInput, "", 6⟩]) =
      .ok (.lambda "x" (.reference "y" [])) := by
  have hbody : IsExpression false [⟨.identifier, "y", 5⟩] (.reference "y" []) :=
    .operators ((IsBinary.operand (.reference rfl .nil (by decide))).loosen (by decide) (by decide))
  have hlambda : IsPrimary true [⟨.identifier, "x", 0⟩, ⟨.operator, "=>", 2⟩, ⟨.identifier, "y", 5⟩]
      (.lambda "x" (.reference "y" [])) := .lambda rfl (by decide) hbody
  refine ((parseTokens_exact _ _ 4 (by decide) rfl (by decide)).1 _).2 ⟨true, .operators ?_⟩
  exact (IsBinary.operand hlambda).loosen (by decide) (by decide)

end RuleLang.Grammar
