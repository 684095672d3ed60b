import RuleLang.Engine
import RuleLang.Proofs.Parser.Completeness
import RuleLang.Proofs.Parser.Writing
import RuleLang.Proofs.Token.Lexical

/-!
# The trees that are read

A tree has a source if its names are words, its numbers are written without a sign and its calls are named by paths.
Its shape does not matter: in parentheses any tree may be an operand, a lambda before an operator included. The
source that is found here has parentheses around every operand.
-/

namespace RuleLang

/-- What an engine reads is read from the tokens of the source. -/
theorem Options.parse_eq_ok {o : Options} {source : String} {e : Expr} : o.parse source = .ok e ↔
    ∃ ts, RuleLang.tokenize o.strictStrings source = .ok ts ∧ parseTokens o.maxDepth.toNat ts = .ok e := by
  rw [Options.parse, Options.tokenize]
  cases RuleLang.tokenize o.strictStrings source with
  | error x =>
    constructor
    · exact nofun
    · rintro ⟨ts, hts, -⟩
      cases hts
  | ok ts =>
    constructor
    · exact fun h => ⟨ts, rfl, h⟩
    · rintro ⟨_, hts, h⟩
      cases hts
      exact h

namespace Expr

mutual

/-- Trees whose names are words, whose numbers are written without a sign, and whose calls are named by the texts of
paths. A path may start at a boolean name if it goes on, or if it is called. -/
inductive Readable : Expr → Prop
  | number {cs : List Char} {x : Float} :
      Number.IsWritten cs → Number.read? (String.ofList cs) = some x → Readable (.number x)
  | string {s : String} : Readable (.string s)
  | reference {root : String} {segments : List Segment} :
      IsIdentifier root → ReadablePath segments → (segments = [] → root ≠ "true" ∧ root ≠ "false") →
      Readable (.reference root segments)
  | unary {op : UnaryOp} {operand : Expr} : Readable operand → Readable (.unary op operand)
  | binary {op : BinaryOp} {left right : Expr} : Readable left → Readable right → Readable (.binary op left right)
  | ternary {condition yes no : Expr} :
      Readable condition → Readable yes → Readable no → Readable (.ternary condition yes no)
  | call {root : String} {segments : List Segment} {args : List Expr} :
      IsIdentifier root → ReadablePath segments → ReadableArgs args →
      Readable (.call (pathText root segments) args)
  | lambda {param : String} {body : Expr} : IsIdentifier param → Readable body → Readable (.lambda param body)

inductive ReadablePath : List Segment → Prop
  | nil : ReadablePath []
  | property {name : String} {segments : List Segment} :
      IsIdentifier name → ReadablePath segments → ReadablePath (.property name :: segments)
  | index {e : Expr} {segments : List Segment} :
      Readable e → ReadablePath segments → ReadablePath (.index e :: segments)

inductive ReadableArgs : List Expr → Prop
  | nil : ReadableArgs []
  | cons {e : Expr} {args : List Expr} : Readable e → ReadableArgs args → ReadableArgs (e :: args)

end

/-- A digit is a number by itself. The boolean names stand for such numbers. -/
theorem Readable.digit {c : Char} (hc : Number.isDigit c) {x : Float}
    (hx : Number.read? (String.ofList [c]) = some x) : Readable (.number x) := by
  refine .number (.inl ⟨[c], [], rfl, List.cons_ne_nil _ _, fun d hd => ?_, .inl rfl⟩) hx
  rwa [List.mem_singleton.1 hd]

end Expr

namespace Grammar

open RuleLang.Expr

mutual

/-- The grammar makes readable trees of the tokens of a source. -/
theorem IsExpression.readable {o : Bool} {ts : List Token} {e : Expr} (h : IsExpression o ts e)
    (hts : ∀ t ∈ ts, t.Lexical) : e.Readable := by
  match h with
  | .operators hb => exact hb.readable hts
  | .ternary hc _ hy _ hn =>
    simp only [List.forall_mem_append, List.forall_mem_cons] at hts
    obtain ⟨hcs, -, hys, -, hns⟩ := hts
    exact .ternary (hc.readable hcs) (hy.readable hys) (hn.readable hns)

theorem IsBinary.readable {p : Nat} {o : Bool} {ts : List Token} {e : Expr} (h : IsBinary p o ts e)
    (hts : ∀ t ∈ ts, t.Lexical) : e.Readable := by
  match h with
  | .operand hp => exact hp.readable hts
  | .tighter _ hb => exact hb.readable hts
  | .operator hl _ hr =>
    simp only [List.forall_mem_append, List.forall_mem_cons] at hts
    obtain ⟨hls, -, hrs⟩ := hts
    exact .binary (hl.readable hls) (hr.readable hrs)

theorem IsPrimary.readable {o : Bool} {ts : List Token} {e : Expr} (h : IsPrimary o ts e)
    (hts : ∀ t ∈ ts, t.Lexical) : e.Readable := by
  match h with
  | .number hk hx =>
    have hwritten := (hts _ (List.mem_singleton_self _)).number hk
    exact .number hwritten (by rwa [String.ofList_toList])
  | .string _ => exact .string
  | .yes _ _ => exact .digit (by decide : Number.isDigit '1') (by decide)
  | .no _ _ => exact .digit (by decide : Number.isDigit '0') (by decide)
  | .lambda hk _ hbody =>
    simp only [List.forall_mem_cons] at hts
    obtain ⟨ht, -, hbs⟩ := hts
    exact .lambda (ht.identifier hk) (hbody.readable hbs)
  | .reference hk hpath hname =>
    simp only [List.forall_mem_cons] at hts
    refine .reference (hts.1.identifier hk) (hpath.readable hts.2) fun hnil => hname ?_
    subst hnil
    cases hpath
    rfl
  | .call hk hpath _ hargs _ =>
    simp only [List.forall_mem_cons, List.forall_mem_append] at hts
    obtain ⟨ht, hps, -, has, -⟩ := hts
    exact .call (ht.identifier hk) (hpath.readable hps) (hargs.readable has)
  | .parentheses _ he _ =>
    simp only [List.forall_mem_cons, List.forall_mem_append] at hts
    exact he.readable hts.2.1
  | .unary _ hp =>
    simp only [List.forall_mem_cons] at hts
    exact .unary (hp.readable hts.2)

theorem IsPath.readable {ts : List Token} {segments : List Segment} (h : IsPath ts segments)
    (hts : ∀ t ∈ ts, t.Lexical) : ReadablePath segments := by
  match h with
  | .nil => exact .nil
  | .property _ hk hpath =>
    simp only [List.forall_mem_cons] at hts
    obtain ⟨-, hname, hps⟩ := hts
    exact .property (hname.identifier hk) (hpath.readable hps)
  | .index _ he _ hpath =>
    simp only [List.forall_mem_cons, List.forall_mem_append] at hts
    obtain ⟨-, his, -, hps⟩ := hts
    exact .index (he.readable his) (hpath.readable hps)

theorem IsArguments.readable {ts : List Token} {args : List Expr} (h : IsArguments ts args)
    (hts : ∀ t ∈ ts, t.Lexical) : ReadableArgs args := by
  match h with
  | .none => exact .nil
  | .some hlist => exact hlist.readable hts

theorem IsArgumentList.readable {ts : List Token} {args : List Expr} (h : IsArgumentList ts args)
    (hts : ∀ t ∈ ts, t.Lexical) : ReadableArgs args := by
  match h with
  | .last he => exact .cons (he.readable hts) .nil
  | .more he _ hlist =>
    simp only [List.forall_mem_cons, List.forall_mem_append] at hts
    obtain ⟨hes, -, has⟩ := hts
    exact .cons (he.readable hes) (hlist.readable has)

end

/-- The parser returns readable trees only. -/
theorem readable_of_parseTokens {strict : Bool} {source : String} {ts : List Token} {maxDepth : Nat} {e : Expr}
    (hts : tokenize strict source = .ok ts) (he : parseTokens maxDepth ts = .ok e) : e.Readable := by
  obtain ⟨o, used, heq, h, -⟩ := (sound _ _).1 (parseTokens_eq_ok.1 he)
  rw [List.append_nil] at heq
  refine h.readable fun t ht => lexical_tokensFrom hts t ?_
  exact (List.takeWhile_sublist _).subset (heq ▸ ht)

/-- Between operands that do not end in a lambda, an operator is where it is put. -/
theorem IsPrimary.derives_binary {ls rs : List Token} {t : Token} {op : BinaryOp} {left right : Expr}
    (hleft : IsPrimary false ls left) (ht : t.isOperator op.symbol) (hright : IsPrimary false rs right) :
    Derives (ls ++ t :: rs) (.binary op left right) := by
  have hpos := precedence_pos op
  have hle := precedence_le op
  have hl : IsBinary op.precedence false ls left := (IsBinary.operand hleft).loosen hpos (by omega)
  have hr : IsBinary (op.precedence + 1) false rs right := (IsBinary.operand hright).loosen (by omega) (by omega)
  exact ⟨false, .operators ((hl.operator ht hr).loosen (Nat.le_refl 1) hpos)⟩

theorem IsPrimary.derives_ternary {cs ys ns : List Token} {question colon : Token} {condition yes no : Expr}
    (hc : IsPrimary false cs condition) (hquestion : question.isOperator "?") (hy : IsPrimary false ys yes)
    (hcolon : colon.isOperator ":") (hn : IsPrimary false ns no) :
    Derives (cs ++ question :: (ys ++ colon :: ns)) (.ternary condition yes no) := by
  obtain ⟨_, hyes⟩ := hy.derives
  obtain ⟨_, hno⟩ := hn.derives
  exact ⟨_, .ternary ((IsBinary.operand hc).loosen (Nat.le_refl 1) (by decide)) hquestion hyes hcolon hno⟩

end Grammar

namespace Expr

open Grammar

mutual

/-- Every readable tree is spelled by some characters. -/
theorem Readable.spelled {e : Expr} (h : Readable e) : ∃ cs, Spells (Before closes) cs (Derives · e) := by
  match h with
  | .number hwritten hx => exact ⟨_, (spells_number hwritten.spells hx).mono fun _ => IsPrimary.derives⟩
  | .string => exact ⟨_, (spells_string _).mono fun _ => IsPrimary.derives⟩
  | .reference hroot hpath hname =>
    obtain ⟨cs, hends, hcs⟩ := hpath.spelled
    exact ⟨_, (spells_reference hcs hends hroot hname).mono fun _ => IsPrimary.derives⟩
  | @Readable.unary op operand hoperand =>
    obtain ⟨cs, hcs⟩ := hoperand.spelled
    have hspells := (spells_sign op).append (spells_parentheses hcs) fun _ _ => before_cons.2 rfl
    refine ⟨_, (hspells.weaken fun _ _ => trivial).mono ?_⟩
    rintro _ ⟨_, ts, rfl, ⟨t, rfl, ht⟩, hts⟩
    exact (IsPrimary.unary ht hts).derives
  | @Readable.binary op left right hleft hright =>
    obtain ⟨ls, hls⟩ := hleft.spelled
    obtain ⟨rs, hrs⟩ := hright.spelled
    have hspells := (spells_parentheses hls).append ((spells_operator op).space.append
      (spells_parentheses hrs).space fun _ _ => before_cons.2 rfl) fun _ _ => trivial
    refine ⟨_, (hspells.weaken fun _ _ => trivial).mono ?_⟩
    rintro _ ⟨_, _, rfl, hts, _, _, rfl, ⟨t, rfl, ht⟩, hts'⟩
    exact hts.derives_binary ht hts'
  | .ternary hcondition hyes hno =>
    obtain ⟨cs, hcs⟩ := hcondition.spelled
    obtain ⟨ys, hys⟩ := hyes.spelled
    obtain ⟨ns, hns⟩ := hno.spelled
    have hspells := (spells_parentheses hcs).append (spells_question.append ((spells_parentheses hys).append
      (spells_colon.append (spells_parentheses hns) fun _ _ => trivial) fun _ _ => trivial) fun _ _ => trivial)
      fun _ _ => trivial
    refine ⟨_, (hspells.weaken fun _ _ => trivial).mono ?_⟩
    rintro _ ⟨_, _, rfl, hts, _, _, rfl, ⟨question, rfl, hquestion⟩, _, _, rfl, hts', _, _, rfl,
      ⟨colon, rfl, hcolon⟩, hts''⟩
    exact hts.derives_ternary hquestion hts' hcolon hts''
  | .call hroot hpath hargs =>
    obtain ⟨cs, hends, hcs⟩ := hpath.spelled
    obtain ⟨ds, hds, -⟩ := hargs.spelled
    exact ⟨_, (spells_call hcs hends hroot hds).mono fun _ => IsPrimary.derives⟩
  | .lambda hparam hbody =>
    obtain ⟨cs, hcs⟩ := hbody.spelled
    have hspells := hparam.spells.append (spells_arrow.space.append hcs fun _ _ => trivial)
      fun _ _ => before_cons.2 rfl
    refine ⟨_, hspells.mono ?_⟩
    rintro _ ⟨_, _, rfl, ⟨t, rfl, hk, rfl⟩, _, ts, rfl, ⟨arrow, rfl, harrow⟩, o, hts⟩
    exact (IsPrimary.lambda hk harrow hts).derives

theorem ReadablePath.spelled {segments : List Segment} (h : ReadablePath segments) :
    ∃ cs, (∀ rest, Before endsIdentifier rest → Before endsIdentifier (cs ++ rest)) ∧
      Spells (Before endsIdentifier) cs (IsPath · segments) := by
  match h with
  | .nil => exact ⟨[], fun _ hrest => hrest, .nil .nil⟩
  | .property hname hpath =>
    obtain ⟨cs, hends, hcs⟩ := hpath.spelled
    exact ⟨_, fun _ _ => before_cons.2 rfl, spells_property hcs hends hname⟩
  | .index he hpath =>
    obtain ⟨is, his⟩ := he.spelled
    obtain ⟨cs, -, hcs⟩ := hpath.spelled
    exact ⟨_, fun _ _ => before_cons.2 rfl, spells_index hcs his⟩

theorem ReadableArgs.spelled {args : List Expr} (h : ReadableArgs args) :
    ∃ cs, Spells (Before closes) cs (IsArguments · args) ∧
      (args ≠ [] → Spells (Before closes) cs (IsArgumentList · args)) := by
  match h with
  | .nil => exact ⟨[], .nil .none, fun hne => absurd rfl hne⟩
  | @ReadableArgs.cons e args he hargs =>
    obtain ⟨cs, hcs⟩ := he.spelled
    obtain ⟨ds, -, hds⟩ := hargs.spelled
    have hlist : ∃ cs, Spells (Before closes) cs (IsArgumentList · (e :: args)) := by
      cases args with
      | nil => exact ⟨_, spells_last hcs⟩
      | cons d args => exact ⟨_, spells_more hcs (hds (List.cons_ne_nil d args))⟩
    obtain ⟨cs, hlist⟩ := hlist
    exact ⟨cs, hlist.mono fun _ => .some, fun _ => hlist⟩

end

/-- A readable tree has a source that is read as it, under any limit on nesting from the number of its tokens on. -/
theorem Readable.parse {e : Expr} (h : e.Readable) : ∃ source, ∀ strict, ∃ ts,
    tokenize strict source = .ok ts ∧ ∀ maxDepth, ts.length ≤ maxDepth → parseTokens maxDepth ts = .ok e := by
  obtain ⟨cs, hcs⟩ := h.spelled
  refine ⟨String.ofList cs, fun strict => ?_⟩
  obtain ⟨ts, position, ⟨o, hts⟩, heq⟩ := hcs strict 0 [] .nil
  refine ⟨ts ++ [⟨.endOfInput, "", position⟩], ?_, fun maxDepth hdepth => ?_⟩
  · rw [List.append_nil, tokensFrom.eq_def strict position] at heq
    rw [tokenize, String.toList_ofList, heq]
    rfl
  · rw [List.length_append] at hdepth
    exact (parseTokens_iff hts.inner rfl hdepth).2 ⟨o, hts⟩

/-- Whether strings must be closed makes no difference to it. -/
theorem Readable.parse_options {e : Expr} (h : e.Readable) :
    ∃ source n, ∀ o : Options, n ≤ o.maxDepth.toNat → o.parse source = .ok e := by
  obtain ⟨source, hsource⟩ := h.parse
  obtain ⟨xs, hx, hparse⟩ := hsource true
  obtain ⟨ys, hy, hparse'⟩ := hsource false
  refine ⟨source, max xs.length ys.length, fun ⟨maxDepth, strict⟩ hn => ?_⟩
  obtain ⟨hxs, hys⟩ := Nat.max_le.1 hn
  cases strict with
  | true => exact Options.parse_eq_ok.2 ⟨xs, hx, hparse _ hxs⟩
  | false => exact Options.parse_eq_ok.2 ⟨ys, hy, hparse' _ hys⟩

theorem readable_of_parse {o : Options} {source : String} {e : Expr} (h : o.parse source = .ok e) : e.Readable := by
  obtain ⟨ts, hts, hparse⟩ := Options.parse_eq_ok.1 h
  exact readable_of_parseTokens hts hparse

/--
A tree is read from some source, under some limit on nesting, exactly if it is readable: its names are words, its
numbers are written without a sign, and the names of its calls are texts of paths. Any larger limit will do, with
strict strings or without. What is written as a number is read as a double, which is neither negative nor NaN.
-/
theorem read_iff_readable (e : Expr) :
    (∀ strict, (∃ source ts maxDepth, tokenize strict source = .ok ts ∧ parseTokens maxDepth ts = .ok e) ↔
      e.Readable) ∧
    (∀ (o : Options) source, o.parse source = .ok e → e.Readable) ∧
    (e.Readable → ∃ source n, ∀ o : Options, n ≤ o.maxDepth.toNat → o.parse source = .ok e) ∧
    ∀ cs, Number.IsWritten cs → ∃ x, Number.read? (String.ofList cs) = some x ∧ 0 ≤ x ∧ x ≠ -0 := by
  refine ⟨fun strict => ⟨?_, fun h => ?_⟩, fun _ _ => readable_of_parse, Readable.parse_options,
    fun _ => Number.IsWritten.read?⟩
  · rintro ⟨source, ts, maxDepth, hts, he⟩
    exact readable_of_parseTokens hts he
  · obtain ⟨source, hsource⟩ := h.parse
    obtain ⟨ts, hts, hparse⟩ := hsource strict
    exact ⟨source, ts, ts.length, hts, hparse _ (Nat.le_refl _)⟩

/-- Some source is read as the sum of a lambda and `1`. The lambda calls the function that is found under
`true["f"]`. -/
theorem read_iff_readable_lambda_sum :
    ∃ source n, ∀ o : Options, n ≤ o.maxDepth.toNat → o.parse source = .ok (.binary .add
      (.lambda "x" (.call (pathText "true" [.index (.string "f")]) [.reference "x" []])) (.number 1)) := by
  have hx : IsIdentifier "x" := ⟨'x', [], rfl, rfl, nofun⟩
  have htrue : IsIdentifier "true" := ⟨'t', ['r', 'u', 'e'], rfl, rfl, List.all_eq_true.1 rfl⟩
  have harg : Readable (.reference "x" []) := .reference hx .nil (by decide)
  have hcall : Readable (.call (pathText "true" [.index (.string "f")]) [.reference "x" []]) :=
    .call htrue (.index .string .nil) (.cons harg .nil)
  have hone : Readable (.number 1) := .digit (by decide : Number.isDigit '1') (by decide)
  exact (read_iff_readable _).2.2.1 (.binary (.lambda hx hcall) hone)

end Expr

end RuleLang
