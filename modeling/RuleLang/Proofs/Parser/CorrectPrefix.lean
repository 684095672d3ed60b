import RuleLang.Proofs.Parser.Refusal
import RuleLang.Proofs.Token.Pieces

/-!
# Errors point at the first wrong token

The place that an error of syntax names is the place of the first token with which no expression can go on: the
tokens before it are the start of an expression, and with it they are the start of none. The proof goes through the
readers of primaries, and then over the budget.
-/

namespace RuleLang.Parser

open RuleLang.Grammar

variable {ι : Type} {spent stop : Nat} {stop' : ι → Nat} {err : SyntaxError} {ts rest rest' : List Token}

/-- Steps of a path and a call behind them: what a path that has been begun can always become. -/
def IsCalled (w : List Token) : Prop :=
  ∃ steps ss opening as args closing, w = steps ++ opening :: (as ++ [closing]) ∧ IsPath steps ss ∧
    opening.isPunctuation "(" ∧ IsArguments as args ∧ closing.isPunctuation ")"

section Called

variable {t dot name opening closing : Token} {as is w : List Token} {args : List Expr} {e : Expr}

theorem isCalled_arguments (hopen : opening.isPunctuation "(") (has : IsArguments as args)
    (hclose : closing.isPunctuation ")") : IsCalled (opening :: (as ++ [closing])) :=
  ⟨[], [], opening, as, args, closing, rfl, .nil, hopen, has, hclose⟩

theorem isCalled_empty : IsCalled [mark "(", mark ")"] :=
  isCalled_arguments (isPunctuation_mark _) .none (isPunctuation_mark _)

theorem IsCalled.property (h : IsCalled w) (hdot : dot.isPunctuation ".") (hname : name.kind = .identifier) :
    IsCalled (dot :: name :: w) := by
  obtain ⟨steps, ss, opening, as, args, closing, rfl, hsteps, hcall⟩ := h
  exact ⟨dot :: name :: steps, _, opening, as, args, closing, rfl, .property hdot hname hsteps, hcall⟩

theorem IsCalled.index (h : IsCalled w) (hopen : opening.isPunctuation "[") (he : Derives is e)
    (hclose : closing.isPunctuation "]") : IsCalled (opening :: (is ++ closing :: w)) := by
  obtain ⟨o, he⟩ := he
  obtain ⟨steps, ss, opening', as, args, closing', rfl, hsteps, hcall⟩ := h
  exact ⟨opening :: (is ++ closing :: steps), _, opening', as, args, closing', by simp, .index hopen he hclose hsteps,
    hcall⟩

theorem IsCalled.primary (h : IsCalled w) (ht : t.kind = .identifier) : ∃ o e, IsPrimary o (t :: w) e := by
  obtain ⟨steps, ss, opening, as, args, closing, rfl, hsteps, hopen, has, hclose⟩ := h
  exact ⟨false, _, .call ht hsteps hopen has hclose⟩

end Called

section Forms

variable {operand whole : Parser Expr} {operand' whole' : ι → Parser Expr} {e : Expr} {t : Token}

theorem path_refuses (stop' : ι → Nat) (h : Reliable spent stop whole whole') (root : String)
    (segments : List Segment) :
    Refusing IsCalled spent stop (path stop whole root segments)
      (fun i => path (stop' i) (whole' i) root segments) := by
  intro ts err herr
  induction hn : ts.length using Nat.strongRecOn generalizing ts segments with
  | ind n ih =>
  subst hn
  obtain ⟨t, mid, rfl, ⟨hopen, hfail⟩ | ⟨hdot, ⟨rfl, hmissing⟩ | ⟨name, more, rfl, hname, hfail⟩⟩ |
    ⟨hbracket, hfail⟩⟩ := path_eq_error herr
  · refine (arguments_refuses stop' h hfail).behind [t] ?_ (by omega) ?_
    · intro w ⟨args, hw⟩
      exact ⟨[mark ")"], isCalled_arguments hopen hw (isPunctuation_mark _)⟩
    · intro ts' _ hstuck i e rest hr
      obtain ⟨args, hargs, -⟩ := (reads_path_call hopen).1 hr
      exact hstuck i args rest hargs
  · refine Refuses.next [t] nofun nofun ?_ ?_
    · exact ⟨⟨.identifier, "x", 0⟩ :: [mark "(", mark ")"], isCalled_empty.property hdot rfl⟩
    · intro rest' hhead i e rest hr
      obtain ⟨name, mid', rfl, hname, -⟩ := (reads_path_property hdot).1 hr
      exact hmissing name (hhead ▸ rfl) hname
  · refine (ih more.length (by simp only [List.length_cons]; omega) _ hfail rfl).behind [t, name] ?_ (by omega) ?_
    · intro w hw
      exact ⟨[], by simpa using hw.property hdot hname⟩
    · intro ts' _ hstuck i e rest hr
      obtain ⟨name', mid', heq, -, hpath⟩ := (reads_path_property hdot).1 hr
      cases heq
      exact hstuck i e rest hpath
  · rcases hfail with hfail | ⟨index, behind, hindex, ⟨rfl, hmissing⟩ | ⟨close, more, rfl, hclose, hfail⟩⟩
    · refine (h.refuses hfail).behind [t] ?_ (by omega) ?_
      · intro w ⟨e, hw⟩
        exact ⟨mark "]" :: [mark "(", mark ")"], isCalled_empty.index hbracket hw (isPunctuation_mark _)⟩
      · intro ts' _ hstuck i e rest hr
        obtain ⟨index, close, mid', hindex, -⟩ := (reads_path_index hbracket).1 hr
        exact hstuck i index _ hindex
    · obtain ⟨is, rfl, his, hagain⟩ := h.reads hindex
      refine Refuses.next (t :: is) nofun nofun ?_ ?_
      · exact ⟨mark "]" :: [mark "(", mark ")"], isCalled_empty.index hbracket his (isPunctuation_mark _)⟩
      · intro rest' hhead i e rest hr
        obtain ⟨index', close, mid', hindex', hclose, -⟩ := (reads_path_index hbracket).1 hr
        obtain ⟨-, rfl⟩ := (hagain i rest' hhead).unique hindex'
        rw [hmissing close (hhead ▸ rfl)] at hclose
        cases hclose
    · have hshort := hindex.length_lt
      obtain ⟨is, rfl, his, hagain⟩ := h.reads hindex
      have hsplit (zs : List Token) : t :: (is ++ close :: zs) = t :: (is ++ [close]) ++ zs := by simp
      rw [hsplit]
      refine (ih more.length (by simp; omega) _ hfail rfl).behind (t :: (is ++ [close])) ?_ (by omega) ?_
      · intro w hw
        exact ⟨[], by simpa using hw.index hbracket his hclose⟩
      · intro ts' _ hstuck i e rest hr
        rw [← hsplit] at hr
        obtain ⟨index', close', mid', hindex', -, hpath⟩ := (reads_path_index hbracket).1 hr
        obtain ⟨rfl, heq⟩ := (hagain i (close :: ts') rfl).unique hindex'
        cases heq
        exact hstuck i e rest hpath

/-- What starts with a name, looked at together with the name. -/
theorem named_refuses (stop' : ι → Nat) (h : Reliable spent stop whole whole') (ht : t.kind = .identifier) :
    Refusing (fun w => ∃ o e, IsPrimary o (t :: w) e) spent stop (named stop whole t.text)
      (fun i => named (stop' i) (whole' i) t.text) := by
  intro ts err herr
  obtain ⟨next, mid, rfl, ⟨harrow, hfail⟩ | ⟨harrow, hpath, hfail⟩⟩ := named_eq_error herr
  · refine (h.refuses hfail).behind [next] ?_ (by omega) ?_
    · intro w ⟨e, o, hw⟩
      exact ⟨[], true, _, by simpa using IsPrimary.lambda ht harrow hw⟩
    · intro ts' _ hstuck i e rest hr
      obtain ⟨body, hbody, -⟩ := (reads_named_lambda harrow).1 hr
      exact hstuck i body rest hbody
  · refine (path_refuses stop' h t.text [] hfail).first ?_ (Nat.le_refl _) ?_
    · intro w hw
      exact ⟨[], by simpa using hw.primary ht⟩
    · intro ts' hhead hstuck i e rest hr
      refine hstuck i e rest ((reads_named_path ?_ ?_).1 hr)
      · rwa [continuesPath_congr hhead]
      · rw [hhead]
        intro t' ht'
        cases ht'
        exact harrow

theorem primaryForm_refuses (h : Reliable spent stop whole whole')
    (hop : Refusing (fun w => ∃ o e, IsPrimary o w e) spent stop operand operand') :
    Refusing (fun w => ∃ o e, IsPrimary o w e) (spent + 1) stop (primaryForm stop whole operand)
      (fun i => primaryForm (stop' i) (whole' i) (operand' i)) := by
  intro ts err herr
  rcases primaryForm_eq_error herr with ⟨t, mid, rfl, ⟨hname, hfail⟩ | ⟨hopen, hfail⟩ | ⟨op, hsign, hfail⟩ | hnumber⟩ |
    ⟨hplace, hfault, hstart⟩
  · refine (named_refuses stop' h hname hfail).deeper [t] (by simp) ?_ ?_
    · intro w hw
      exact ⟨[], by simpa using hw⟩
    · intro ts' _ hstuck i e rest hr
      exact hstuck i e rest ((reads_primary_name hname).1 hr)
  · rcases hfail with hfail | ⟨e, behind, he, rfl, hmissing⟩
    · refine (h.refuses hfail).deeper [t] (by simp) ?_ ?_
      · intro w ⟨e, o, hw⟩
        exact ⟨[mark ")"], false, e, .parentheses hopen hw (isPunctuation_mark _)⟩
      · intro ts' _ hstuck i e rest hr
        obtain ⟨close, hinside, -⟩ := (reads_primary_parentheses hopen).1 hr
        exact hstuck i e _ hinside
    · obtain ⟨is, rfl, ⟨o, his⟩, hagain⟩ := h.reads he
      refine Refuses.next (t :: is) nofun nofun ?_ ?_
      · exact ⟨[mark ")"], false, e, .parentheses hopen his (isPunctuation_mark _)⟩
      · intro rest' hhead i e' rest hr
        obtain ⟨close, hinside, hclose⟩ := (reads_primary_parentheses hopen).1 hr
        obtain ⟨-, rfl⟩ := (hagain i rest' hhead).unique hinside
        rw [hmissing close (hhead ▸ rfl)] at hclose
        cases hclose
  · refine (hop hfail).deeper [t] (by simp) ?_ ?_
    · intro w ⟨o, e, hw⟩
      exact ⟨[], o, _, by simpa using IsPrimary.unary hsign hw⟩
    · intro ts' _ hstuck i e rest hr
      obtain ⟨inner, hinner, -⟩ := (reads_primary_unary hsign).1 hr
      exact hstuck i inner rest hinner
  · obtain ⟨rfl, hk, hx⟩ := hnumber
    refine ⟨[], t :: mid, rfl, rfl, ⟨[filler], false, _, isPrimary_filler⟩, nofun, ?_, ?_⟩
    · intro _ rest' hhead i e rest hr
      obtain ⟨more, rfl⟩ := List.head?_eq_some_iff.1 hhead
      obtain ⟨x, hx', -⟩ := (reads_primary_number hk).1 hr
      rw [hx] at hx'
      cases hx'
    · exact fun _ _ => ⟨t, List.mem_cons_self .., hk, hx⟩
  · refine ⟨[], ts, rfl, hplace, ⟨[filler], false, _, isPrimary_filler⟩, ?_, ?_, ?_⟩
    · intro hdeep
      rcases hfault with hfault | ⟨_, hfault⟩
      · rw [hfault] at hdeep
        cases hdeep
      · rw [hfault] at hdeep
        cases hdeep
    · intro _ rest' hhead i e rest hr
      obtain ⟨t, ts', rfl, hstarts⟩ := starts_of_reads_primary hr
      exact hstart t (hhead ▸ rfl) hstarts
    · intro text hnumber
      rcases hfault with hfault | ⟨_, hfault⟩
      · rw [hfault] at hnumber
        cases hnumber
      · rw [hfault] at hnumber
        cases hnumber

end Forms

/-- A spent budget refuses the next token of anything that can be begun. -/
theorem tooDeep_refuses {P : List Token → Prop} (hviable : ∃ w, P w) (read' : ι → Parser Expr) :
    Refusing P 0 stop (tooDeep stop) read' := by
  intro ts err herr
  cases herr
  exact ⟨[], ts, rfl, rfl, hviable, fun _ => Nat.zero_le _, fun h => absurd rfl h, nofun⟩

/-- Expressions and primaries are refused as they should be, by induction on the budget: `extra` is what other
budgets have more. A primary takes one token before it asks for another level. -/
theorem reliable (stop budget : Nat) (stop' extra : ι → Nat) :
    Reliable budget stop (expression stop budget) (fun i => expression (stop' i) (budget + extra i)) ∧
      Refusing (fun w => ∃ o e, IsPrimary o w e) (budget + 1) stop (primary stop budget)
        (fun i => primary (stop' i) (budget + extra i)) := by
  have hsteady (budget : Nat) (i : ι) := steady stop (stop' i) (Nat.le_add_right budget (extra i))
  induction budget with
  | zero =>
    have he : Reliable 0 stop (expression stop 0) (fun i => expression (stop' i) (0 + extra i)) := by
      refine ⟨(sound stop 0).1, fun i => (hsteady 0 i).1, ?_⟩
      rw [expression_zero]
      exact tooDeep_refuses ⟨_, _, derives_filler⟩ _
    obtain ⟨operand', hprimary⟩ : ∃ operand' : ι → Parser Expr, ∀ i,
        primary (stop' i) (0 + extra i) = primaryForm (stop' i) (expression (stop' i) (0 + extra i)) (operand' i) :=
      ⟨fun i => (primary_eq (stop' i) (0 + extra i)).choose, fun i => (primary_eq _ _).choose_spec.1⟩
    refine ⟨he, ?_⟩
    simp only [primary_zero, hprimary]
    exact primaryForm_refuses he (tooDeep_refuses ⟨_, _, _, isPrimary_filler⟩ _)
  | succ budget ih =>
    obtain ⟨hexpression, hprimary⟩ := ih
    have he : Reliable (budget + 1) stop (expression stop (budget + 1))
        (fun i => expression (stop' i) (budget + 1 + extra i)) := by
      refine ⟨(sound stop (budget + 1)).1, fun i => (hsteady (budget + 1) i).1, ?_⟩
      simp only [Nat.add_right_comm budget 1, expression_succ]
      exact ternary_refuses (sound stop budget).2 (fun i => (hsteady budget i).2) hprimary hexpression
    refine ⟨he, ?_⟩
    simp only [Nat.add_right_comm budget 1, primary_succ] at he ⊢
    exact primaryForm_refuses he hprimary

end RuleLang.Parser

namespace RuleLang

open RuleLang.Parser RuleLang.Grammar

theorem endPlace_append {words : List Token} {marker : Token} (hwords : ∀ t ∈ words, Inner t)
    (hm : marker.kind = .endOfInput) : endPlace (words ++ [marker]) = marker.position := by
  have hnone : words.find? (·.kind = .endOfInput) = none := by
    simpa [List.find?_eq_none] using hwords
  rw [endPlace, List.find?_append, hnone]
  simp [hm]

/-- Tokens that the parser takes at some depth are read to their end with any larger budget. -/
theorem reads_of_parseTokens {depth budget : Nat} {ts : List Token} {e : Expr} (stop : Nat) (hdepth : depth ≤ budget)
    (h : parseTokens depth ts = .ok e) : Reads (expression stop budget (beforeEnd ts)) e [] := by
  obtain ⟨used, hused, hagain⟩ := (steady (endPlace ts) stop hdepth).1 (parseTokens_eq_ok.1 h)
  rw [hused]
  exact hagain [] rfl

/-- The tokens before the one that an error points at can be continued, and with that token they cannot. -/
theorem parseTokens_error {maxDepth : Nat} {words : List Token} {marker : Token} {err : SyntaxError}
    (hwords : ∀ t ∈ words, Inner t) (hm : marker.kind = .endOfInput)
    (herr : parseTokens maxDepth (words ++ [marker]) = .error err) :
    ∃ used rest, words = used ++ rest ∧ err.position = place marker.position rest ∧
      (∃ more e, Derives (used ++ more) e) ∧
      (words.length < maxDepth →
        ∀ t ∈ rest.head?, ∀ more depth e, parseTokens depth (used ++ t :: more) ≠ .ok e) ∧
      ∀ text, err.fault = .invalidNumber text → ∃ t ∈ words, t.kind = .number ∧ Number.read? t.text = none := by
  rw [parseTokens, beforeEnd_append hwords hm, endPlace_append hwords hm] at herr
  -- all the places of an end marker and all the budgets at which other tokens may be parsed
  have hreliable := (reliable marker.position maxDepth (fun i : Nat × Nat => i.1) fun i => i.2).1
  have hparsed {used more : List Token} {t : Token} {depth : Nat} {e : Expr} (hused : ∀ a ∈ used ++ [t], Inner a)
      (h : parseTokens depth (used ++ t :: more) = .ok e) :
      Reads (expression 0 (maxDepth + depth) (used ++ t :: beforeEnd more)) e [] := by
    have hr := reads_of_parseTokens 0 (Nat.le_add_left depth maxDepth) h
    rwa [List.append_cons, beforeEnd_inner hused, ← List.append_cons] at hr
  cases hread : expression marker.position maxDepth words with
  | error fault =>
    rw [hread] at herr
    cases herr
    obtain ⟨used, rest, rfl, h⟩ := hreliable.refuses hread
    refine ⟨used, rest, rfl, h.place, h.viable, ?_, fun text hnumber => ?_⟩
    · intro hd t ht more depth e hparse
      have hshallow : err.fault ≠ .nestedTooDeeply := by
        intro hdeep
        have := h.deep hdeep
        rw [List.length_append] at hd
        omega
      obtain ⟨behind, rfl⟩ := List.head?_eq_some_iff.1 ht
      refine h.stuck hshallow (t :: beforeEnd more) rfl (0, depth) e [] (hparsed ?_ hparse)
      exact fun t' ht' => hwords t' (by rw [List.append_cons]; exact List.mem_append_left _ ht')
    · obtain ⟨t, ht, hnot⟩ := h.number text hnumber
      exact ⟨t, List.mem_append_right _ ht, hnot⟩
  | ok parsed =>
    obtain ⟨e, rest, hfewer⟩ := parsed
    rw [hread] at herr
    cases rest with
    | nil => cases herr
    | cons t rest =>
      cases herr
      obtain ⟨used, rfl, hused, hagain⟩ := hreliable.reads ⟨hfewer, hread⟩
      refine ⟨used, t :: rest, rfl, rfl, ⟨[], e, by rwa [List.append_nil]⟩, ?_, ?_⟩
      · intro _ t' ht' more depth e' hparse
        cases ht'
        have hinner : ∀ a ∈ used ++ [t], Inner a :=
          fun a ha => hwords a (by rw [List.append_cons]; exact List.mem_append_left _ ha)
        cases ((hparsed hinner hparse).unique (hagain (0, depth) (t :: beforeEnd more) rfl)).2
      · intro text hnumber
        cases hnumber

/-- Errors of syntax have the correct-prefix property: where the tokens of a source are not parsed, the place of the
error is the place of a token, and the tokens before it can be continued to an expression. If there were more levels
than tokens before the end marker, they can not be continued together with that token, unless it is the end marker.
No number is ever at fault. -/
theorem parseTokens_error_position {strict : Bool} {source : String} {ts : List Token} {maxDepth : Nat}
    {err : SyntaxError} (htokens : tokenize strict source = .ok ts)
    (herr : parseTokens maxDepth ts = .error err) :
    ∃ words, ts = words ++ [⟨.endOfInput, "", source.length⟩] ∧ (∀ t ∈ words, t.kind ≠ .endOfInput) ∧
      ∃ i ≤ words.length, (∃ t, ts[i]? = some t ∧ err.position = t.position) ∧
        (∃ more e, ∀ depth, (words.take i ++ more).length < depth →
          parseTokens depth (words.take i ++ more ++ [⟨.endOfInput, "", source.length⟩]) = .ok e) ∧
        (words.length < maxDepth → i < words.length →
          ∀ more depth e, parseTokens depth (words.take (i + 1) ++ more) ≠ .ok e) ∧
        ∀ text, err.fault ≠ .invalidNumber text := by
  obtain ⟨pieces, -, hcut, hts⟩ := exists_pieces (tokensFrom_lenient htokens)
  rw [Nat.zero_add, String.length_toList] at hts
  have hwords : ∀ t ∈ Piece.tokens pieces, Inner t := hcut.kind_ne
  generalize Piece.tokens pieces = words at hts hwords
  subst hts
  obtain ⟨used, rest, rfl, hplace, ⟨more, e, hmore⟩, hstuck, hnumber⟩ := parseTokens_error hwords rfl herr
  refine ⟨used ++ rest, rfl, hwords, used.length, by simp, ?_, ⟨more, e, ?_⟩, ?_, ?_⟩
  · rw [List.append_assoc, List.getElem?_append_right (Nat.le_refl _), Nat.sub_self]
    cases rest with
    | nil => exact ⟨_, rfl, hplace⟩
    | cons t rest => exact ⟨_, rfl, hplace⟩
  · intro depth hdepth
    rw [List.take_left] at hdepth ⊢
    obtain ⟨o, hmore⟩ := hmore
    exact (parseTokens_iff hmore.inner rfl hdepth).2 ⟨o, hmore⟩
  · intro hdepth hi more' depth e'
    cases rest with
    | nil => simp at hi
    | cons t rest =>
      rw [List.append_cons, List.take_left' (by simp), List.append_assoc]
      exact hstuck hdepth t rfl more' depth e'
  · intro text hfault
    obtain ⟨t, ht, hk, hx⟩ := hnumber text hfault
    have hwritten := (lexical_tokensFrom htokens t (List.mem_append_left _ ht)).number hk
    obtain ⟨x, hx', -⟩ := hwritten.read?
    rw [String.ofList_toList, hx] at hx'
    cases hx'

/-- The error in `x+*y` is at the star, so nothing that begins with `x+*` is parsed. -/
theorem parseTokens_error_position_star :
    tokenize true "x+*y" = .ok [⟨.identifier, "x", 0⟩, ⟨.operator, "+", 1⟩, ⟨.operator, "*", 2⟩, ⟨.identifier, "y", 3⟩,
        ⟨.endOfInput, "", 4⟩] ∧
      ∀ more depth e, parseTokens depth
        ([⟨.identifier, "x", 0⟩, ⟨.operator, "+", 1⟩, ⟨.operator, "*", 2⟩] ++ more) ≠ .ok e := by
  have htokens : tokenize true "x+*y" = .ok [⟨.identifier, "x", 0⟩, ⟨.operator, "+", 1⟩, ⟨.operator, "*", 2⟩,
      ⟨.identifier, "y", 3⟩, ⟨.endOfInput, "", 4⟩] := by cbv
  have herr : parseTokens 5 [⟨.identifier, "x", 0⟩, ⟨.operator, "+", 1⟩, ⟨.operator, "*", 2⟩, ⟨.identifier, "y", 3⟩,
      ⟨.endOfInput, "", 4⟩] = .error ⟨.unexpectedToken "*", 2⟩ := by cbv
  refine ⟨htokens, ?_⟩
  obtain ⟨words, hwords, -, i, hi, ⟨t, ht, hposition⟩, -, hstuck, -⟩ :=
    parseTokens_error_position htokens herr
  obtain rfl : [⟨.identifier, "x", 0⟩, ⟨.operator, "+", 1⟩, ⟨.operator, "*", 2⟩, ⟨.identifier, "y", 3⟩] = words :=
    List.append_cancel_right hwords
  have hplace : i = 0 ∨ i = 1 ∨ i = 2 ∨ i = 3 ∨ i = 4 := by
    simp only [List.length_cons, List.length_nil] at hi
    omega
  have hstar : i = 2 := by
    rcases hplace with rfl | rfl | rfl | rfl | rfl <;> cases ht <;> cases hposition
    rfl
  subst hstar
  exact hstuck (by decide) (by decide)

end RuleLang
