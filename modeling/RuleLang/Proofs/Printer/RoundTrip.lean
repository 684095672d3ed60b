import RuleLang.Proofs.Printer.Rereading

/-!
# Which trees are read back as they are

The tree that a text is read as has a text of the same length. It is the tree that was written if no lambda took
in an operator, and otherwise already its text is another one. Two call names are equal exactly when the paths
have the same text, so the two directions of the argument meet in the texts.
-/

namespace RuleLang.Expr

open Grammar

/-- The text of a tree is a sequence of tokens of which the grammar makes the tree that the text is read as. -/
theorem ReadAs.tokenize {e e' : Expr} (h : ReadAs e e') (strict : Bool) :
    ∃ ts marker, RuleLang.tokenize strict e.text = .ok (ts ++ [marker]) ∧ marker.kind = .endOfInput ∧
      (∀ t ∈ ts, Inner t) ∧ Derives ts e' := by
  obtain ⟨ts, position, hts, heq⟩ := h.spells strict 0 [] .nil
  refine ⟨ts, ⟨.endOfInput, "", position⟩, ?_, rfl, hts.primary.inner, _, hts.expression⟩
  rw [List.append_nil, tokensFrom.eq_def strict position] at heq
  rw [RuleLang.tokenize, text, String.toList_ofList, heq]
  rfl

/-- A text is read as one tree only. -/
theorem ReadAs.unique {e d d' : Expr} (h : ReadAs e d) (h' : ReadAs e d') : d = d' := by
  obtain ⟨ts, marker, hts, -, hinner, hd⟩ := h.tokenize false
  obtain ⟨ts', marker', hts', -, -, hd'⟩ := h'.tokenize false
  rw [hts] at hts'
  obtain ⟨rfl, -⟩ := List.append_inj' (Except.ok.inj hts') rfl
  exact hd.unique hinner hd'

mutual

theorem chars_eq_of_same {e e' : Expr} (h : e.same e' = true) : e.chars = e'.chars := by
  match e with
  | .number x =>
    cases e' <;> simp only [same, reduceCtorEq] at h
    rw [chars, chars, Number.text_eq_of_beq h]
  | .string s =>
    cases e' <;> simp only [same, beq_iff_eq, reduceCtorEq] at h
    rw [h]
  | .reference root segments =>
    cases e' <;> simp only [same, Bool.and_eq_true, beq_iff_eq, reduceCtorEq] at h
    rw [chars, chars, h.1, segmentChars_eq_of_same h.2]
  | .unary op x =>
    cases e' <;> simp only [same, Bool.and_eq_true, beq_iff_eq, reduceCtorEq] at h
    rw [chars, chars, h.1, chars_eq_of_same h.2]
  | .binary op left right =>
    cases e' <;> simp only [same, Bool.and_eq_true, beq_iff_eq, reduceCtorEq] at h
    rw [chars, chars, h.1.1, chars_eq_of_same h.1.2, chars_eq_of_same h.2]
  | .ternary condition yes no =>
    cases e' <;> simp only [same, Bool.and_eq_true, reduceCtorEq] at h
    rw [chars, chars, chars_eq_of_same h.1.1, chars_eq_of_same h.1.2, chars_eq_of_same h.2]
  | .call name args =>
    cases e' <;> simp only [same, Bool.and_eq_true, beq_iff_eq, reduceCtorEq] at h
    rw [chars, chars, h.1, argChars_eq_of_same h.2]
  | .lambda param body =>
    cases e' <;> simp only [same, Bool.and_eq_true, beq_iff_eq, reduceCtorEq] at h
    rw [chars, chars, h.1, chars_eq_of_same h.2]

theorem segmentChars_eq_of_same {ss ss' : List Segment} (h : sameSegments ss ss' = true) :
    segmentChars ss = segmentChars ss' := by
  match ss with
  | [] =>
    cases ss' <;> simp only [sameSegments, reduceCtorEq] at h
    rfl
  | s :: ss =>
    cases ss' <;> simp only [sameSegments, Bool.and_eq_true, reduceCtorEq] at h
    rw [segmentChars, segmentChars, segment_chars_eq_of_same h.1, segmentChars_eq_of_same h.2]

theorem segment_chars_eq_of_same {s s' : Segment} (h : s.same s' = true) : s.chars = s'.chars := by
  match s with
  | .property name =>
    cases s' <;> simp only [Segment.same, beq_iff_eq, reduceCtorEq] at h
    rw [h]
  | .index e =>
    cases s' <;> simp only [Segment.same, reduceCtorEq] at h
    rw [Segment.chars, Segment.chars, chars_eq_of_same h]

theorem argChars_eq_of_same {args args' : List Expr} (h : sameArgs args args' = true) :
    argChars args = argChars args' := by
  match args with
  | [] =>
    cases args' <;> simp only [sameArgs, reduceCtorEq] at h
    rfl
  | [e] =>
    cases args' <;> simp only [sameArgs, Bool.and_eq_true, reduceCtorEq] at h
    next e' es' =>
      cases es' <;> simp only [sameArgs, reduceCtorEq, and_false] at h
      rw [argChars, argChars, chars_eq_of_same h.1]
  | e :: d :: es =>
    cases args' <;> simp only [sameArgs, Bool.and_eq_true, reduceCtorEq] at h
    next e' es' =>
      have htail := argChars_eq_of_same h.2
      cases es' <;> simp only [sameArgs, reduceCtorEq, and_false] at h
      rw [argChars_cons_cons, argChars_cons_cons, chars_eq_of_same h.1, htail]

end

mutual

theorem ReadAs.wellFormed {e e' : Expr} (h : ReadAs e e') : WellFormed e := by
  match h with
  | .number hx _ _ => exact .number hx
  | .string => exact .string
  | .reference hroot hpath hname => exact .reference hroot hpath.wellFormed hname
  | .unary hx => exact .unary hx.wellFormed
  | .binary hleft hright => exact .binary hleft.wellFormed hright.wellFormed
  | .ternary hcondition hyes hno => exact .ternary hcondition.wellFormed hyes.wellFormed hno.wellFormed
  | .call hroot hpath hargs => exact .call hroot hpath.wellFormed hargs.wellFormed
  | .lambda hparam hbody => exact .lambda hparam hbody.wellFormed

theorem PathReadAs.wellFormed {segments segments' : List Segment} (h : PathReadAs segments segments') :
    WellFormedPath segments := by
  match h with
  | .nil => exact .nil
  | .property hname hpath => exact .property hname hpath.wellFormed
  | .index he hpath => exact .index he.wellFormed hpath.wellFormed

theorem ArgsReadAs.wellFormed {args args' : List Expr} (h : ArgsReadAs args args') : WellFormedArgs args := by
  match h with
  | .nil => exact .nil
  | .cons he hargs => exact .cons he.wellFormed hargs.wellFormed

end

mutual

/-- A tree whose lambdas take in no operator is read as it is. -/
theorem ReadAs.same_of_unambiguous {e e' : Expr} (h : ReadAs e e') (hu : e.Unambiguous) : e'.same e = true := by
  match h with
  | .number _ _ heq => simpa [same] using heq
  | .string => simp [same]
  | .reference _ hpath _ =>
    have hsame := hpath.same_of_unambiguous fun e he x hx => hu x (.index he hx)
    simp [same, hsame]
  | .unary hx =>
    have hsame := hx.same_of_unambiguous fun x hx => hu x (.operand hx)
    simp [same, hsame]
  | @ReadAs.binary op left left' right right' hleft hright =>
    have hl := hleft.same_of_unambiguous fun x hx => hu x (.left hx)
    have hr := hright.same_of_unambiguous fun x hx => hu x (.right hx)
    have hclosed : left.openEnded = false := hu _ .here
    rw [absorb_closed hclosed]
    simp [same, hl, hr]
  | @ReadAs.ternary condition condition' yes yes' no no' hcondition hyes hno =>
    have hc := hcondition.same_of_unambiguous fun x hx => hu x (.condition hx)
    have hy := hyes.same_of_unambiguous fun x hx => hu x (.yes hx)
    have hn := hno.same_of_unambiguous fun x hx => hu x (.no hx)
    have hclosed : condition.openEnded = false := hu _ .here
    rw [absorb_closed hclosed]
    simp [same, hc, hy, hn]
  | @ReadAs.call root segments segments' args args' hroot hpath hargs =>
    have hsegments := hpath.same_of_unambiguous fun e he x hx =>
      hu x (.callee hroot hpath.wellFormed (.index he hx))
    have hsame := hargs.same_of_unambiguous fun e he x hx => hu x (.arg he hx)
    have hname : pathText root segments' = pathText root segments := by
      rw [pathText, pathText, segmentChars_eq_of_same hsegments]
    simp [same, hname, hsame]
  | .lambda _ hbody =>
    have hsame := hbody.same_of_unambiguous fun x hx => hu x (.body hx)
    simp [same, hsame]

theorem PathReadAs.same_of_unambiguous {segments segments' : List Segment} (h : PathReadAs segments segments')
    (hu : ∀ e, Segment.index e ∈ segments → e.Unambiguous) : sameSegments segments' segments = true := by
  match h with
  | .nil => simp [sameSegments]
  | .property _ hpath =>
    have hsame := hpath.same_of_unambiguous fun e he => hu e (List.mem_cons_of_mem _ he)
    simp [sameSegments, Segment.same, hsame]
  | .index he hpath =>
    have hhead := he.same_of_unambiguous (hu _ (List.mem_cons_self ..))
    have htail := hpath.same_of_unambiguous fun e he => hu e (List.mem_cons_of_mem _ he)
    simp [sameSegments, Segment.same, hhead, htail]

theorem ArgsReadAs.same_of_unambiguous {args args' : List Expr} (h : ArgsReadAs args args')
    (hu : ∀ e ∈ args, e.Unambiguous) : sameArgs args' args = true := by
  match h with
  | .nil => simp [sameArgs]
  | .cons he hargs =>
    have hhead := he.same_of_unambiguous (hu _ (List.mem_cons_self ..))
    have htail := hargs.same_of_unambiguous fun e he => hu e (List.mem_cons_of_mem _ he)
    simp [sameArgs, hhead, htail]

end

/-- Taking in an operator that adds so many characters adds so many characters. -/
theorem length_absorb {k : Expr → Expr} {n : Nat} (hk : ∀ b, (k b).chars.length = b.chars.length + n) (e e' : Expr) :
    (absorb k e e').chars.length = e'.chars.length + n := by
  fun_induction absorb k e e' with
  | case1 _ body param body' ih =>
    simp only [chars, List.length_append, List.length_cons, ih]
    omega
  | case2 _ x op x' hopen ih =>
    simp only [chars, List.length_append, ih]
    omega
  | case3 => exact hk _
  | case4 => exact hk _

mutual

/-- A text is read as a tree whose own text is as long. -/
theorem ReadAs.length_chars {e e' : Expr} (h : ReadAs e e') : e'.chars.length = e.chars.length := by
  match h with
  | .number _ _ heq => rw [chars, chars, Number.text_eq_of_beq heq]
  | .string => rfl
  | .reference _ hpath _ => simp only [chars, List.length_append, hpath.length_chars]
  | .unary hx => simp only [chars, List.length_append, hx.length_chars]
  | @ReadAs.binary op left left' right right' hleft hright =>
    have hl := hleft.length_chars
    have hr := hright.length_chars
    rw [length_absorb (n := op.symbol.toList.length + right'.chars.length + 4)]
    · simp only [chars, List.length_append, List.length_cons, List.length_nil]
      omega
    · intro b
      simp only [chars, List.length_append, List.length_cons, List.length_nil]
      omega
  | @ReadAs.ternary condition condition' yes yes' no no' hcondition hyes hno =>
    have hc := hcondition.length_chars
    have hy := hyes.length_chars
    have hn := hno.length_chars
    rw [length_absorb (n := yes'.chars.length + no'.chars.length + 8)]
    · simp only [chars, List.length_append, List.length_cons, List.length_nil]
      omega
    · intro b
      simp only [chars, List.length_append, List.length_cons, List.length_nil]
      omega
  | .call _ hpath hargs =>
    simp only [chars, toList_pathText, List.length_append, List.length_cons, hpath.length_chars, hargs.length_chars]
  | .lambda _ hbody => simp only [chars, List.length_append, List.length_cons, hbody.length_chars]

theorem PathReadAs.length_chars {segments segments' : List Segment} (h : PathReadAs segments segments') :
    (segmentChars segments').length = (segmentChars segments).length := by
  match h with
  | .nil => rfl
  | .property _ hpath => simp only [segmentChars, List.length_append, hpath.length_chars]
  | .index he hpath =>
    simp only [segmentChars, Segment.chars, List.length_append, List.length_cons, he.length_chars,
      hpath.length_chars]

theorem ArgsReadAs.length_chars {args args' : List Expr} (h : ArgsReadAs args args') :
    (argChars args').length = (argChars args).length := by
  match h with
  | .nil => rfl
  | .cons he hargs =>
    have hhead := he.length_chars
    have htail := hargs.length_chars
    cases hargs with
    | nil => exact hhead
    | cons _ _ => simp only [argChars_cons_cons, List.length_append, List.length_cons, hhead, htail]

end

/-- What takes in an operator does not start with a parenthesis. -/
theorem ReadAs.head_absorb {k : Expr → Expr} {e e' : Expr} (h : ReadAs e e') (ho : e.openEnded = true) :
    (absorb k e e').chars.head? ≠ some '(' := by
  cases h with
  | @unary op x x' hx =>
    rw [openEnded] at ho
    rw [absorb, if_pos ho]
    intro heq
    cases op <;> cases heq
  | lambda hparam =>
    have hstart : ∀ c, isIdentifierStart c → (c != '(') = true :=
      fun c hc => bne_iff_ne.2 (ne_of_start hc (by decide))
    intro heq
    rw [absorb, chars] at heq
    cases hparam.before hstart _ '(' heq
  | _ => cases ho

/-- Where the root operator of a tree is taken in, the tree read back has another text. -/
theorem ReadAs.separated {e e' : Expr} (h : ReadAs e e') (heq : e'.chars = e.chars) : e.Separated := by
  cases h with
  | binary hleft =>
    rw [Separated, ← Bool.not_eq_true]
    intro ho
    refine hleft.head_absorb ho (Eq.trans (congrArg List.head? heq) ?_)
    rw [chars_binary]
    rfl
  | ternary hcondition =>
    rw [Separated, ← Bool.not_eq_true]
    intro ho
    refine hcondition.head_absorb ho (Eq.trans (congrArg List.head? heq) ?_)
    rw [chars_ternary]
    rfl
  | _ => trivial

theorem ReadAs.of_binary {op : BinaryOp} {left right e' : Expr} (h : ReadAs (.binary op left right) e')
    (heq : e'.chars = chars (.binary op left right)) :
    (∃ left', ReadAs left left' ∧ left'.chars = left.chars) ∧
      ∃ right', ReadAs right right' ∧ right'.chars = right.chars := by
  have hclosed := h.separated heq
  cases h with
  | @binary _ _ left' _ right' hleft hright =>
    rw [absorb_closed hclosed, chars_binary, chars_binary] at heq
    obtain ⟨hl, heq⟩ := List.append_inj (List.cons.inj heq).2 hleft.length_chars
    have hr := (List.cons.inj (List.append_inj_left' (List.append_cancel_left heq) rfl)).2
    exact ⟨⟨left', hleft, hl⟩, right', hright, hr⟩

theorem ReadAs.of_ternary {condition yes no e' : Expr} (h : ReadAs (.ternary condition yes no) e')
    (heq : e'.chars = chars (.ternary condition yes no)) :
    (∃ condition', ReadAs condition condition' ∧ condition'.chars = condition.chars) ∧
      (∃ yes', ReadAs yes yes' ∧ yes'.chars = yes.chars) ∧ ∃ no', ReadAs no no' ∧ no'.chars = no.chars := by
  have hclosed := h.separated heq
  cases h with
  | @ternary _ condition' _ yes' _ no' hcondition hyes hno =>
    rw [absorb_closed hclosed, chars_ternary, chars_ternary] at heq
    obtain ⟨hc, heq⟩ := List.append_inj (List.cons.inj heq).2 hcondition.length_chars
    obtain ⟨hy, heq⟩ := List.append_inj (List.append_cancel_left heq) (by simp [hyes.length_chars])
    have hn := (List.cons.inj (List.append_inj_left' (List.append_cancel_left heq) rfl)).2
    exact ⟨⟨condition', hcondition, hc⟩, ⟨yes', hyes, (List.cons.inj hy).2⟩, no', hno, hn⟩

theorem ReadAs.of_call {name : String} {args : List Expr} {e' : Expr} (h : ReadAs (.call name args) e')
    (heq : e'.chars = chars (.call name args)) :
    ∃ args', ArgsReadAs args args' ∧ e' = .call name args' ∧ argChars args' = argChars args := by
  cases h with
  | @call root segments segments' _ args' _ hpath hargs =>
    rw [chars_call, chars_call] at heq
    obtain ⟨hname, heq⟩ := List.append_inj heq (by simp [hpath.length_chars])
    have hchars := List.append_inj_left' (List.cons.inj heq).2 rfl
    exact ⟨args', hargs, by rw [pathText, hname, ← pathText], hchars⟩

theorem PathReadAs.of_mem {segments segments' : List Segment} {e : Expr} (h : PathReadAs segments segments')
    (heq : segmentChars segments' = segmentChars segments) (he : .index e ∈ segments) :
    ∃ e', ReadAs e e' ∧ e'.chars = e.chars := by
  match h with
  | .nil => cases he
  | .property _ hpath =>
    rcases List.mem_cons.1 he with heq' | he
    · cases heq'
    · rw [segmentChars, segmentChars] at heq
      exact hpath.of_mem (List.append_cancel_left heq) he
  | @PathReadAs.index d d' _ _ hd hpath =>
    rw [segmentChars, segmentChars, Segment.chars, Segment.chars] at heq
    obtain ⟨hhead, htail⟩ := List.append_inj heq (by simp [hd.length_chars])
    rcases List.mem_cons.1 he with heq' | he
    · cases heq'
      have hchars := List.append_inj_left' hhead rfl
      exact ⟨d', hd, (List.cons.inj hchars).2⟩
    · exact hpath.of_mem htail he

theorem ArgsReadAs.of_mem {args args' : List Expr} {e : Expr} (h : ArgsReadAs args args')
    (heq : argChars args' = argChars args) (he : e ∈ args) : ∃ e', ReadAs e e' ∧ e'.chars = e.chars := by
  match h with
  | .nil => cases he
  | @ArgsReadAs.cons d d' ds ds' hd hargs =>
    have hrest := fun heq he => hargs.of_mem (e := e) heq he
    cases hargs with
    | nil =>
      rw [List.mem_singleton] at he
      exact ⟨d', he ▸ hd, he ▸ heq⟩
    | cons _ _ =>
      rw [argChars_cons_cons, argChars_cons_cons] at heq
      obtain ⟨hhead, htail⟩ := List.append_inj heq hd.length_chars
      rcases List.mem_cons.1 he with rfl | he
      · exact ⟨d', hd, hhead⟩
      · exact hrest (List.cons.inj (List.cons.inj htail).2).2 he

/-- If the tree read back has the same text, then no operator within the tree was taken in. -/
theorem Within.separated {x e : Expr} (hx : Within x e) {e' : Expr} (h : ReadAs e e')
    (heq : e'.chars = e.chars) : x.Separated := by
  induction hx generalizing e' with
  | here => exact h.separated heq
  | index hmem _ ih =>
    cases h with
    | reference _ hpath =>
      obtain ⟨d, hd, hchars⟩ := hpath.of_mem (List.append_cancel_left heq) hmem
      exact ih hd hchars
  | operand _ ih =>
    cases h with
    | unary hx =>
      rw [chars, chars] at heq
      exact ih hx (List.append_cancel_left heq)
  | left _ ih =>
    obtain ⟨⟨left', hleft, hchars⟩, -⟩ := h.of_binary heq
    exact ih hleft hchars
  | right _ ih =>
    obtain ⟨-, right', hright, hchars⟩ := h.of_binary heq
    exact ih hright hchars
  | condition _ ih =>
    obtain ⟨⟨condition', hcondition, hchars⟩, -⟩ := h.of_ternary heq
    exact ih hcondition hchars
  | yes _ ih =>
    obtain ⟨-, ⟨yes', hyes, hchars⟩, -⟩ := h.of_ternary heq
    exact ih hyes hchars
  | no _ ih =>
    obtain ⟨-, -, no', hno, hchars⟩ := h.of_ternary heq
    exact ih hno hchars
  | @callee root segments args hroot hpath hx ih =>
    obtain ⟨args', hargs, rfl, -⟩ := h.of_call heq
    obtain ⟨segments', hpath'⟩ := hpath.readAs
    have hcall := h.unique (.call hroot hpath' hargs)
    have hname : pathText root segments = pathText root segments' := (Expr.call.inj hcall).1
    by_cases hnil : segments = []
    · subst hnil
      cases hx with
      | here => trivial
      | index hmem => cases hmem
    · refine ih (.reference hroot hpath' fun h => absurd h hnil) ?_
      rw [chars, chars, ← toList_pathText, ← toList_pathText, hname]
  | arg hmem _ ih =>
    obtain ⟨args', hargs, -, hchars⟩ := h.of_call heq
    obtain ⟨d, hd, hchars⟩ := hargs.of_mem hchars hmem
    exact ih hd hchars
  | body _ ih =>
    cases h with
    | lambda _ hbody =>
      rw [chars, chars] at heq
      have hchars := List.append_cancel_left heq
      simp only [List.cons.injEq, true_and] at hchars
      exact ih hbody hchars

/-- A tree is read back as it is exactly if no lambda in it takes in an operator. -/
theorem ReadAs.same_iff {e e' : Expr} (h : ReadAs e e') : e'.same e = true ↔ e.Unambiguous :=
  ⟨fun hsame _ hx => hx.separated h (chars_eq_of_same hsame), h.same_of_unambiguous⟩

/--
The canonical text of a well-formed tree is read as a tree, under any limit on nesting above the number of its
tokens. It is the tree that was written exactly if no binary operator in it stands behind an operand that ends in
a lambda, and no question mark behind such a condition.
-/
theorem parse_text_iff (e : Expr) (he : e.WellFormed) (strict : Bool) :
    ∃ ts marker, RuleLang.tokenize strict e.text = .ok (ts ++ [marker]) ∧ marker.kind = .endOfInput ∧
      ∀ maxDepth, ts.length < maxDepth →
        ∃ e', parseTokens maxDepth (ts ++ [marker]) = .ok e' ∧ (e'.same e = true ↔ e.Unambiguous) := by
  obtain ⟨e', h⟩ := he.readAs
  obtain ⟨ts, marker, htokens, hm, hinner, hd⟩ := h.tokenize strict
  refine ⟨ts, marker, htokens, hm, fun maxDepth hdepth => ⟨e', ?_, h.same_iff⟩⟩
  exact (parseTokens_iff hinner hm hdepth).2 hd

/-- The text of the sum of `x => x` and `1` is read as a tree, but not as that sum. -/
theorem parse_text_iff_lambda_sum :
    ∃ ts marker, RuleLang.tokenize true (text (.binary .add (.lambda "x" (.reference "x" [])) (.number 1))) =
        .ok (ts ++ [marker]) ∧
      ∃ e', parseTokens (ts.length + 1) (ts ++ [marker]) = .ok e' ∧
        e'.same (.binary .add (.lambda "x" (.reference "x" [])) (.number 1)) = false := by
  have hname : IsIdentifier "x" := ⟨'x', [], rfl, rfl, nofun⟩
  have hone : Number.IsLiteral 1 := ⟨by decide, by decide, 1, by decide, by decide⟩
  obtain ⟨ts, marker, htokens, -, hparse⟩ := parse_text_iff _
    (.binary (.lambda hname (.reference hname .nil (by decide))) (.number hone)) true
  obtain ⟨e', he', hsame⟩ := hparse (ts.length + 1) (Nat.lt_succ_self _)
  refine ⟨ts, marker, htokens, e', he', Bool.eq_false_iff.2 fun h => ?_⟩
  cases hsame.1 h _ .here

end RuleLang.Expr
