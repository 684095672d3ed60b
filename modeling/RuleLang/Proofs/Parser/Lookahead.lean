import RuleLang.Proofs.Parser.Completeness
import RuleLang.Proofs.Parser.Failing

/-!
# One token ahead

A reader looks at the tokens that it takes and at the next one, and at no token behind that. So it takes the same
tokens again, to the same tree, before anything that starts with the same token, wherever the end is and with any
larger budget.
-/

namespace RuleLang.Parser

open RuleLang.Grammar

variable {α : Type} {bound : List Token → Nat} {stop stop' : Nat} {ts rest rest' : List Token}

/-- What `read` takes, `read'` takes as well before anything that starts with the same token. -/
def Steady (read read' : (ts : List Token) → Except SyntaxError (Parsed α (bound ts))) : Prop :=
  ∀ ⦃ts rest : List Token⦄ ⦃a : α⦄, Reads (read ts) a rest →
    ∃ used, ts = used ++ rest ∧ ∀ rest', rest'.head? = rest.head? → Reads (read' (used ++ rest')) a rest'

/-- The same for tokens that are known to be taken. -/
theorem Steady.again {read read' : (ts : List Token) → Except SyntaxError (Parsed α (bound ts))} {a : α}
    {used : List Token} (h : Steady read read') (hr : Reads (read (used ++ rest)) a rest)
    (hhead : rest'.head? = rest.head?) : Reads (read' (used ++ rest')) a rest' := by
  obtain ⟨used', hused, hagain⟩ := h hr
  rw [List.append_cancel_right hused]
  exact hagain rest' hhead

theorem head?_append_congr (used : List Token) (h : rest'.head? = rest.head?) :
    (used ++ rest').head? = (used ++ rest).head? := by
  rw [List.head?_append, List.head?_append, h]

theorem continuesPath_congr (h : rest'.head? = rest.head?) : continuesPath rest' = continuesPath rest := by
  cases rest <;> cases rest' <;> simp_all [continuesPath]

section Operators

variable {operand operand' : Parser Expr}

theorem climbOn_steady (hop : Steady operand operand') (least : Nat) (left : Expr) :
    Steady (climbOn operand least left) (climbOn operand' least left) := by
  intro ts rest e hr
  induction hn : ts.length using Nat.strongRecOn generalizing ts rest left least e with
  | ind n ih =>
  subst hn
  by_cases hstop : Below least ts
  · obtain ⟨rfl, rfl⟩ := hr.unique (climbOn_of_below hstop)
    refine ⟨[], rfl, fun rest' hhead => climbOn_of_below fun t ht => hstop t ?_⟩
    rwa [← hhead]
  · cases ts with
    | nil => exact absurd nofun hstop
    | cons t ts =>
      obtain ⟨op, ht, hop'⟩ : ∃ op, operator? t = some op ∧ least ≤ op.precedence := by
        simpa [Below] using hstop
      obtain ⟨right, mid, hright, hon⟩ := (reads_climbOn_operator ht hop').1 hr
      have hshort := hright.length_lt
      obtain ⟨first, mid₀, hfirst, hclimb⟩ := reads_climb.1 hright
      have hshort₀ := hfirst.length_lt
      obtain ⟨ps, rfl, hps⟩ := hop hfirst
      obtain ⟨rs, rfl, hrs⟩ := ih _ (by simp only [List.length_cons]; omega) _ _ hclimb rfl
      obtain ⟨used, rfl, hused⟩ := ih _ (by simp only [List.length_cons]; omega) _ _ hon rfl
      refine ⟨t :: (ps ++ rs ++ used), by simp, fun rest' hhead => ?_⟩
      have hbehind := head?_append_congr used hhead
      have hclimb' : Reads (climb operand' (op.precedence + 1) (ps ++ (rs ++ (used ++ rest')))) right
          (used ++ rest') := reads_climb.2 ⟨first, _, hps _ (head?_append_congr rs hbehind), hrs _ hbehind⟩
      rw [List.cons_append, List.append_assoc, List.append_assoc]
      exact (reads_climbOn_operator ht hop').2 ⟨right, _, hclimb', hused rest' hhead⟩

theorem climb_steady (hop : Steady operand operand') (least : Nat) :
    Steady (climb operand least) (climb operand' least) := by
  intro ts rest e hr
  obtain ⟨first, mid, hfirst, hon⟩ := reads_climb.1 hr
  obtain ⟨ps, rfl, hps⟩ := hop hfirst
  obtain ⟨used, rfl, hused⟩ := climbOn_steady hop least first hon
  refine ⟨ps ++ used, by simp, fun rest' hhead => ?_⟩
  rw [List.append_assoc]
  exact reads_climb.2 ⟨first, _, hps _ (head?_append_congr used hhead), hused rest' hhead⟩

end Operators

section Forms

variable {condition condition' whole whole' operand operand' : Parser Expr}

theorem ternary_steady (hcondition : Steady condition condition') (hwhole : Steady whole whole') :
    Steady (ternary stop condition whole) (ternary stop' condition' whole') := by
  intro ts rest e hr
  rcases reads_ternary.1 hr with ⟨hc, hnone⟩ | ⟨c, question, ys, yes, colon, ns, no, hc, hq, hyes, hcolon, hno, rfl⟩
  · obtain ⟨used, rfl, hused⟩ := hcondition hc
    exact ⟨used, rfl, fun rest' hhead => reads_ternary.2 (.inl ⟨hused rest' hhead, hhead ▸ hnone⟩)⟩
  · obtain ⟨cs, rfl, hcs⟩ := hcondition hc
    obtain ⟨us, rfl, hus⟩ := hwhole hyes
    obtain ⟨vs, rfl, hvs⟩ := hwhole hno
    refine ⟨cs ++ question :: (us ++ colon :: vs), by simp, fun rest' hhead => ?_⟩
    rw [List.append_assoc, List.cons_append, List.append_assoc, List.cons_append]
    exact reads_ternary.2 (.inr ⟨c, question, _, yes, colon, _, no, hcs _ rfl, hq, hus _ rfl, hcolon,
      hvs rest' hhead, rfl⟩)

theorem argumentList_steady (hwhole : Steady whole whole') :
    Steady (argumentList stop whole) (argumentList stop' whole') := by
  intro ts rest es hr
  induction hn : ts.length using Nat.strongRecOn generalizing ts rest es with
  | ind n ih =>
  subst hn
  obtain ⟨e, t, mid, he, ⟨hcomma, more, hmore, rfl⟩ | ⟨hclose, rfl, rfl⟩⟩ := reads_argumentList.1 hr
  · have hshort : mid.length < ts.length := Nat.lt_of_succ_lt he.length_lt
    obtain ⟨used, rfl, hused⟩ := hwhole he
    obtain ⟨as, rfl, has⟩ := ih mid.length hshort hmore rfl
    refine ⟨used ++ t :: as, by simp, fun rest' hhead => ?_⟩
    rw [List.append_assoc, List.cons_append]
    exact reads_argumentList.2 ⟨e, t, _, hused _ rfl, .inl ⟨hcomma, more, has rest' hhead, rfl⟩⟩
  · obtain ⟨used, rfl, hused⟩ := hwhole he
    refine ⟨used ++ [t], by simp, fun rest' hhead => ?_⟩
    rw [List.append_assoc, List.singleton_append]
    exact reads_argumentList.2 ⟨e, t, _, hused _ rfl, .inr ⟨hclose, rfl, rfl⟩⟩

theorem arguments_steady (stop' : Nat) (hwhole : Steady whole whole') :
    Steady (arguments stop whole) (arguments stop' whole') := by
  intro ts rest es hr
  rcases reads_arguments.1 hr with ⟨t, rfl, ht, rfl⟩ | ⟨hnone, hlist⟩
  · exact ⟨[t], rfl, fun rest' _ => reads_arguments.2 (.inl ⟨t, rfl, ht, rfl⟩)⟩
  · obtain ⟨used, rfl, hused⟩ := argumentList_steady hwhole hlist
    refine ⟨used, rfl, fun rest' hhead => reads_arguments.2 (.inr ⟨?_, hused rest' hhead⟩)⟩
    rwa [head?_append_congr used hhead]

theorem path_steady (stop' : Nat) (hwhole : Steady whole whole') (root : String) (segments : List Segment) :
    Steady (path stop whole root segments) (path stop' whole' root segments) := by
  intro ts rest e hr
  induction hn : ts.length using Nat.strongRecOn generalizing ts rest e segments with
  | ind n ih =>
  subst hn
  by_cases hend : continuesPath ts = false
  · obtain ⟨rfl, rfl⟩ := (reads_path_end hend).1 hr
    refine ⟨[], rfl, fun rest' hhead => (reads_path_end ?_).2 ⟨rfl, rfl⟩⟩
    rwa [List.nil_append, continuesPath_congr hhead]
  cases ts with
  | nil => simp [continuesPath] at hend
  | cons t ts =>
  simp only [continuesPath, Bool.not_eq_false, Bool.or_eq_true] at hend
  rcases hend with (hdot | hbracket) | hopen
  · obtain ⟨name, mid, rfl, hname, hrest⟩ := (reads_path_property hdot).1 hr
    obtain ⟨used, rfl, hused⟩ := ih mid.length (by simp only [List.length_cons]; omega) _ hrest rfl
    refine ⟨t :: name :: used, rfl, fun rest' hhead => ?_⟩
    exact (reads_path_property hdot).2 ⟨name, _, rfl, hname, hused rest' hhead⟩
  · obtain ⟨index, close, mid, hindex, hclose, hrest⟩ := (reads_path_index hbracket).1 hr
    have hshort := hindex.length_lt
    obtain ⟨is, rfl, his⟩ := hwhole hindex
    obtain ⟨used, rfl, hused⟩ := ih mid.length (by simp at hshort ⊢; omega) _ hrest rfl
    refine ⟨t :: (is ++ close :: used), by simp, fun rest' hhead => ?_⟩
    rw [List.cons_append, List.append_assoc, List.cons_append]
    exact (reads_path_index hbracket).2 ⟨index, close, _, his _ rfl, hclose, hused rest' hhead⟩
  · obtain ⟨args, hargs, rfl⟩ := (reads_path_call hopen).1 hr
    obtain ⟨used, rfl, hused⟩ := arguments_steady stop' hwhole hargs
    exact ⟨t :: used, rfl, fun rest' hhead => (reads_path_call hopen).2 ⟨args, hused rest' hhead, rfl⟩⟩

theorem named_steady (stop' : Nat) (hwhole : Steady whole whole') (name : String) :
    Steady (named stop whole name) (named stop' whole' name) := by
  intro ts rest e hr
  by_cases harrow : ∀ a ∈ ts.head?, a.isOperator "=>" = false
  · by_cases hpath : booleanName? name = none ∨ continuesPath ts
    · rw [reads_named_path hpath harrow] at hr
      obtain ⟨used, rfl, hused⟩ := path_steady stop' hwhole name [] hr
      refine ⟨used, rfl, fun rest' hhead => ?_⟩
      have hsame := head?_append_congr used hhead
      rw [← continuesPath_congr hsame] at hpath
      exact (reads_named_path hpath (hsame ▸ harrow)).2 (hused rest' hhead)
    · obtain ⟨hname, hend⟩ := not_or.1 hpath
      obtain ⟨x, hx⟩ := Option.ne_none_iff_exists'.1 hname
      have hend : continuesPath ts = false := by simpa using hend
      obtain ⟨rfl, rfl⟩ := (reads_named_truth hx harrow hend).1 hr
      refine ⟨[], rfl, fun rest' hhead => ?_⟩
      rw [← continuesPath_congr hhead] at hend
      exact (reads_named_truth hx (hhead ▸ harrow) hend).2 ⟨rfl, rfl⟩
  · cases ts with
    | nil => simp at harrow
    | cons arrow ts =>
    have ha : arrow.isOperator "=>" := by simpa using harrow
    obtain ⟨body, hbody, rfl⟩ := (reads_named_lambda ha).1 hr
    obtain ⟨used, rfl, hused⟩ := hwhole hbody
    exact ⟨arrow :: used, rfl, fun rest' hhead => (reads_named_lambda ha).2 ⟨body, hused rest' hhead, rfl⟩⟩

theorem primaryForm_steady (hwhole : Steady whole whole') (hop : Steady operand operand') :
    Steady (primaryForm stop whole operand) (primaryForm stop' whole' operand') := by
  intro ts rest e hr
  obtain ⟨t, ts, rfl, hnum | hstr | hname | hparen | ⟨op, hsign⟩⟩ := starts_of_reads_primary hr
  · obtain ⟨x, hx, rfl, rfl⟩ := (reads_primary_number hnum).1 hr
    exact ⟨[t], rfl, fun rest' _ => (reads_primary_number hnum).2 ⟨x, hx, rfl, rfl⟩⟩
  · obtain ⟨rfl, rfl⟩ := (reads_primary_string hstr).1 hr
    exact ⟨[t], rfl, fun rest' _ => (reads_primary_string hstr).2 ⟨rfl, rfl⟩⟩
  · obtain ⟨used, rfl, hused⟩ := named_steady stop' hwhole t.text ((reads_primary_name hname).1 hr)
    exact ⟨t :: used, rfl, fun rest' hhead => (reads_primary_name hname).2 (hused rest' hhead)⟩
  · obtain ⟨close, hinside, hclose⟩ := (reads_primary_parentheses hparen).1 hr
    obtain ⟨used, rfl, hused⟩ := hwhole hinside
    refine ⟨t :: (used ++ [close]), by simp, fun rest' hhead => ?_⟩
    rw [List.cons_append, List.append_assoc]
    exact (reads_primary_parentheses hparen).2 ⟨close, hused _ rfl, hclose⟩
  · obtain ⟨inner, hinner, rfl⟩ := (reads_primary_unary hsign).1 hr
    obtain ⟨used, rfl, hused⟩ := hop hinner
    exact ⟨t :: used, rfl, fun rest' hhead => (reads_primary_unary hsign).2 ⟨inner, hused rest' hhead, rfl⟩⟩

end Forms

theorem tooDeep_steady (read' : Parser Expr) : Steady (tooDeep stop) read' :=
  fun _ _ _ hr => absurd hr not_reads_tooDeep

/-- Expressions and primaries are read again with a larger budget, by induction on the smaller one. -/
theorem steady (stop stop' : Nat) {budget budget' : Nat} (h : budget ≤ budget') :
    Steady (expression stop budget) (expression stop' budget') ∧
      Steady (primary stop budget) (primary stop' budget') := by
  induction budget generalizing budget' with
  | zero =>
    have he : Steady (expression stop 0) (expression stop' budget') := by
      rw [expression_zero]
      exact tooDeep_steady _
    obtain ⟨operand, hprimary, -⟩ := primary_eq stop' budget'
    refine ⟨he, ?_⟩
    rw [primary_zero, hprimary]
    exact primaryForm_steady he (tooDeep_steady _)
  | succ budget ih =>
    obtain ⟨more, rfl⟩ := Nat.exists_eq_add_one_of_ne_zero (Nat.ne_zero_of_lt h)
    have ih := ih (Nat.le_of_succ_le_succ h)
    have he : Steady (expression stop (budget + 1)) (expression stop' (more + 1)) := by
      rw [expression_succ, expression_succ]
      exact ternary_steady (climb_steady ih.2 0) ih.1
    refine ⟨he, ?_⟩
    rw [primary_succ, primary_succ]
    exact primaryForm_steady he ih.2

end RuleLang.Parser
