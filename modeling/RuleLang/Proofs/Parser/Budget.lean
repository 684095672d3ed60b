import RuleLang.Proofs.Parser.EndMarker

/-!
# A larger budget

Two runs of the readers over the same tokens, one with a smaller budget. The larger budget `Eases` the reading: both
come out the same, unless the smaller budget is spent before some of the tokens, and then whatever the larger one
still reads or lacks is behind that place. Each form keeps this, so it holds of all readers by induction on the
budget. Since places go up along the tokens of a source, a larger budget is never spent at an earlier place.
-/

namespace RuleLang

namespace Parser

variable {α β : Type} {m n stop : Nat} {ts mid : List Token}

/-- What is left of tokens is their end, and the place where a level is lacking is before such an end. -/
def Within (stop : Nat) (ts : List Token) : Except SyntaxError (Parsed α n) → Prop
  | .ok p => p.rest <:+ ts
  | .error e => e.fault = .nestedTooDeeply → ∃ mid, mid <:+ ts ∧ e.position = place stop mid

theorem Within.mono {o : Except SyntaxError (Parsed α n)} (h : Within stop mid o) (hmid : mid <:+ ts) :
    Within stop ts o := by
  cases o with
  | ok p => exact List.IsSuffix.trans h hmid
  | error e =>
    intro hfault
    obtain ⟨left, hleft, hplace⟩ := h hfault
    exact ⟨left, hleft.trans hmid, hplace⟩

/-- Two outcomes of reading the same tokens are the same, or the first one lacks a level before some of them and the
second one stays behind that place. -/
def Eases (stop : Nat) (ts : List Token) (o o' : Except SyntaxError (Parsed α n)) : Prop :=
  Within stop ts o' ∧
    (o = o' ∨ ∃ mid, mid <:+ ts ∧ o = .error ⟨.nestedTooDeeply, place stop mid⟩ ∧ Within stop mid o')

/-- With one reader, tokens are read with more ease than with another one. -/
def Easing (stop : Nat) (read read' : Parser α) : Prop :=
  ∀ ts, Eases stop ts (read ts) (read' ts)

namespace Eases

variable {o o' : Except SyntaxError (Parsed α m)}

theorem of_within (h : Within stop ts o) : Eases stop ts o o :=
  ⟨h, .inl rfl⟩

theorem ok {a : α} {h : ts.length < n} : Eases stop ts (.ok ⟨a, ts, h⟩) (.ok ⟨a, ts, h⟩) :=
  of_within List.suffix_rfl

theorem error {e : SyntaxError} (he : e.fault ≠ .nestedTooDeeply) :
    Eases stop ts (.error e : Except SyntaxError (Parsed α n)) (.error e) :=
  of_within fun h => absurd h he

/-- A reader without a level left fails before all that another one reads. -/
theorem tooDeep {r : Except SyntaxError (Parsed Expr ts.length)} (h : Within stop ts r) :
    Eases stop ts (tooDeep stop ts) r :=
  ⟨h, .inr ⟨ts, List.suffix_rfl, rfl, h⟩⟩

theorem mono (h : Eases stop mid o o') (hmid : mid <:+ ts) : Eases stop ts o o' := by
  refine ⟨h.1.mono hmid, h.2.imp_right ?_⟩
  rintro ⟨left, hleft, ho, ho'⟩
  exact ⟨left, hleft.trans hmid, ho, ho'⟩

theorem bind {g g' : Parsed α m → Except SyntaxError (Parsed β n)} (h : Eases stop ts o o')
    (hg : ∀ p, p.rest <:+ ts → Eases stop p.rest (g p) (g' p)) : Eases stop ts (o >>= g) (o' >>= g') := by
  -- Whatever the second outcome is within, what follows it is within.
  have hwithin : ∀ {mid : List Token}, mid <:+ ts → Within stop mid o' → Within stop mid (o' >>= g') := by
    intro mid hmid ho'
    cases o' with
    | error e => exact ho'
    | ok p => exact (hg p (List.IsSuffix.trans ho' hmid)).1.mono ho'
  refine ⟨hwithin List.suffix_rfl h.1, ?_⟩
  rcases h with ⟨ho', rfl | ⟨mid, hmid, rfl, hbehind⟩⟩
  · cases o with
    | error e => exact .inl rfl
    | ok p => exact ((hg p ho').mono ho').2
  · exact .inr ⟨mid, hmid, rfl, hwithin hmid hbehind⟩

theorem widen {h : ∀ p : Parsed α m, p.rest.length < n} (ho : Eases stop ts o o') :
    Eases stop ts (o >>= fun p => .ok ⟨p.value, p.rest, h p⟩) (o' >>= fun p => .ok ⟨p.value, p.rest, h p⟩) :=
  ho.bind fun _ _ => .ok

theorem take {accepts : Token → Bool} {fault : SyntaxFault} (hfault : fault ≠ .nestedTooDeeply) :
    Eases stop ts (take stop accepts fault ts) (take stop accepts fault ts) := by
  cases ts with
  | nil => exact .error hfault
  | cons t ts =>
    rw [Parser.take]
    split
    · exact ok.mono (List.suffix_cons _ _)
    · exact .error hfault

end Eases

section Forms

variable {operand operand' whole whole' condition condition' : Parser Expr} {least : Nat} {left : Expr}

/-- Climbing on from an operand that is read with more ease. -/
theorem climb_eases_of (ho : Easing stop operand operand')
    (hon : ∀ left mid, mid.length < ts.length →
      Eases stop mid (climbOn operand least left mid) (climbOn operand' least left mid)) :
    Eases stop ts (climb operand least ts) (climb operand' least ts) := by
  rw [climb, climb]
  exact (ho ts).bind fun p _ => (hon p.value p.rest p.fewer).widen

theorem climbOn_eases (ho : Easing stop operand operand') :
    Eases stop ts (climbOn operand least left ts) (climbOn operand' least left ts) := by
  obtain ⟨n, hn⟩ : ∃ n, ts.length < n := ⟨_, Nat.lt_succ_self _⟩
  induction n generalizing ts least left with
  | zero => exact absurd hn (Nat.not_lt_zero _)
  | succ n ih =>
    rw [climbOn.eq_def, climbOn.eq_def]
    cases ts with
    | nil => exact .ok
    | cons t ts =>
      simp only [List.length_cons] at hn
      cases hop : operator? t with
      | none =>
        simp only [hop]
        exact .ok
      | some op =>
        by_cases hleast : op.precedence < least
        · simp only [hop, hleast, ↓reduceIte]
          exact .ok
        · simp only [hop, hleast, ↓reduceIte]
          have hright : Eases stop ts (climb operand (op.precedence + 1) ts) (climb operand' (op.precedence + 1) ts) :=
            climb_eases_of ho fun left mid hlt => ih (by omega)
          refine (hright.bind fun right _ => ?_).mono (List.suffix_cons t ts)
          exact (ih (by have := right.fewer; omega)).widen

theorem climb_eases (ho : Easing stop operand operand') : Easing stop (climb operand least) (climb operand' least) :=
  fun _ => climb_eases_of ho fun _ _ _ => climbOn_eases ho

theorem ternary_eases (hc : Easing stop condition condition') (hw : Easing stop whole whole') :
    Easing stop (ternary stop condition whole) (ternary stop condition' whole') := by
  refine fun ts => (hc ts).bind fun p _ => ?_
  obtain ⟨c, mid, hmid⟩ := p
  cases mid with
  | nil => exact .ok
  | cons t mid =>
    by_cases ht : t.isOperator "?"
    · simp only [ht, ↓reduceIte]
      refine Eases.mono ?_ (List.suffix_cons t mid)
      refine (hw mid).bind fun yes _ => (Eases.take (by simp)).bind fun colon _ => (hw colon.rest).bind fun no _ => ?_
      exact .ok
    · simp only [ht, ↓reduceIte, Bool.false_eq_true]
      exact .ok

theorem argumentList_eases (hw : Easing stop whole whole') :
    Easing stop (argumentList stop whole) (argumentList stop whole') := by
  intro ts
  obtain ⟨n, hn⟩ : ∃ n, ts.length < n := ⟨_, Nat.lt_succ_self _⟩
  induction n generalizing ts with
  | zero => exact absurd hn (Nat.not_lt_zero _)
  | succ n ih =>
    rw [argumentList, argumentList]
    refine (hw ts).bind fun p _ => ?_
    obtain ⟨e, mid, hmid⟩ := p
    cases mid with
    | nil => exact .error (by simp)
    | cons t mid =>
      simp only [List.length_cons] at hmid
      by_cases hcomma : t.isPunctuation ","
      · simp only [hcomma, ↓reduceIte]
        refine Eases.mono ?_ (List.suffix_cons t mid)
        exact (ih mid (by omega)).bind fun more _ => .ok
      · simp only [hcomma, ↓reduceIte, Bool.false_eq_true]
        split
        · exact Eases.ok.mono (List.suffix_cons t mid)
        · exact .error (by simp)

theorem arguments_eases (hw : Easing stop whole whole') :
    Easing stop (arguments stop whole) (arguments stop whole') := by
  intro ts
  cases ts with
  | nil => exact argumentList_eases hw []
  | cons t ts =>
    rw [arguments, arguments]
    split
    · exact Eases.ok.mono (List.suffix_cons t ts)
    · exact argumentList_eases hw (t :: ts)

theorem path_eases (hw : Easing stop whole whole') (root : String) (segments : List Segment) :
    Eases stop ts (path stop whole root segments ts) (path stop whole' root segments ts) := by
  obtain ⟨n, hn⟩ : ∃ n, ts.length < n := ⟨_, Nat.lt_succ_self _⟩
  induction n generalizing ts segments with
  | zero => exact absurd hn (Nat.not_lt_zero _)
  | succ n ih =>
    rw [path.eq_def, path.eq_def]
    cases ts with
    | nil => exact .ok
    | cons t ts =>
      by_cases hcall : t.isPunctuation "("
      · simp only [hcall, ↓reduceIte]
        exact ((arguments_eases hw ts).bind fun args _ => .ok).mono (List.suffix_cons t ts)
      by_cases hdot : t.isPunctuation "."
      · simp only [hcall, hdot, ↓reduceIte, Bool.false_eq_true]
        cases ts with
        | nil => exact .error (by simp)
        | cons name ts =>
          by_cases hname : name.kind = .identifier
          · simp only [hname, ↓reduceIte]
            refine Eases.mono ?_ ((List.suffix_cons name ts).trans (List.suffix_cons t _))
            simp only [List.length_cons] at hn
            exact (ih _ (by omega)).widen
          · simp only [hname, ↓reduceIte]
            exact .error (by simp)
      by_cases hindex : t.isPunctuation "["
      · simp only [hcall, hdot, hindex, ↓reduceIte, Bool.false_eq_true]
        refine Eases.mono ?_ (List.suffix_cons t ts)
        refine (hw ts).bind fun index _ => (Eases.take (by simp)).bind fun close _ => ?_
        have := index.fewer
        have := close.fewer
        simp only [List.length_cons] at hn
        exact (ih _ (by omega)).widen
      · simp only [hcall, hdot, hindex, ↓reduceIte, Bool.false_eq_true]
        exact .ok

theorem named_eases (hw : Easing stop whole whole') (name : String) :
    Eases stop ts (named stop whole name ts) (named stop whole' name ts) := by
  rw [named.eq_def, named.eq_def]
  cases ts with
  | nil => cases booleanName? name <;> exact .ok
  | cons t ts =>
    by_cases harrow : t.isOperator "=>"
    · simp only [harrow, ↓reduceIte]
      exact ((hw ts).bind fun body _ => .ok).mono (List.suffix_cons t ts)
    · simp only [harrow, ↓reduceIte, Bool.false_eq_true]
      cases booleanName? name with
      | none => exact path_eases hw name []
      | some x =>
        cases continuesPath (t :: ts) with
        | false => exact .ok
        | true => exact path_eases hw name []

theorem primaryForm_eases (hw : Easing stop whole whole') (ho : Easing stop operand operand') :
    Easing stop (primaryForm stop whole operand) (primaryForm stop whole' operand') := by
  intro ts
  cases ts with
  | nil => exact .error (by simp)
  | cons t ts =>
    rw [primaryForm, primaryForm]
    dsimp only
    cases t.kind with
    | number =>
      cases Number.read? t.text with
      | some x => exact Eases.ok.mono (List.suffix_cons t ts)
      | none => exact .error (by simp)
    | string => exact Eases.ok.mono (List.suffix_cons t ts)
    | identifier => exact (named_eases hw t.text).mono (List.suffix_cons t ts)
    | punctuation =>
      by_cases hopen : t.text = "("
      · simp only [hopen, ↓reduceIte]
        refine Eases.mono ?_ (List.suffix_cons t ts)
        exact (hw ts).bind fun inside _ => (Eases.take (by simp)).bind fun close _ => .ok
      · simp only [hopen, ↓reduceIte]
        exact .error (by simp)
    | operator =>
      dsimp only
      cases if t.text = "-" then some UnaryOp.neg else if t.text = "!" then some UnaryOp.not else none with
      | some op => exact ((ho ts).bind fun e _ => .ok).mono (List.suffix_cons t ts)
      | none => exact .error (by simp)
    | endOfInput => exact .error (by simp)

end Forms

theorem tooDeep_eases_self : Easing stop (tooDeep stop) (tooDeep stop) :=
  fun ts => .tooDeep fun _ => ⟨ts, List.suffix_rfl, rfl⟩

/-- Readers come out the same twice, and so they stay within what they read. -/
theorem easing_self (stop budget : Nat) :
    Easing stop (expression stop budget) (expression stop budget) ∧
      Easing stop (primary stop budget) (primary stop budget) := by
  induction budget with
  | zero =>
    rw [primary_zero, expression_zero]
    exact ⟨tooDeep_eases_self, primaryForm_eases tooDeep_eases_self tooDeep_eases_self⟩
  | succ budget ih =>
    have he : Easing stop (expression stop (budget + 1)) (expression stop (budget + 1)) := by
      rw [expression_succ]
      exact ternary_eases (climb_eases ih.2) ih.1
    rw [primary_succ]
    exact ⟨he, primaryForm_eases he ih.2⟩

/-- A larger budget eases the reading of expressions and of primaries. -/
theorem easing (stop : Nat) {budget budget' : Nat} (h : budget ≤ budget') :
    Easing stop (expression stop budget) (expression stop budget') ∧
      Easing stop (primary stop budget) (primary stop budget') := by
  induction budget generalizing budget' with
  | zero =>
    have he : Easing stop (expression stop 0) (expression stop budget') := by
      rw [expression_zero]
      exact fun ts => .tooDeep ((easing_self stop budget').1 ts).1
    refine ⟨he, ?_⟩
    rw [primary_zero]
    cases budget' with
    | zero =>
      rw [primary_zero]
      exact primaryForm_eases he tooDeep_eases_self
    | succ budget' =>
      rw [primary_succ]
      exact primaryForm_eases he fun ts => .tooDeep ((easing_self stop budget').2 ts).1
  | succ budget ih =>
    obtain ⟨budget', rfl⟩ := Nat.exists_eq_add_of_lt (Nat.lt_of_succ_le h)
    obtain ⟨hexpression, hprimary⟩ := ih (Nat.le_add_right budget budget')
    have he : Easing stop (expression stop (budget + 1)) (expression stop (budget + budget' + 1)) := by
      rw [expression_succ, expression_succ]
      exact ternary_eases (climb_eases hprimary) hexpression
    rw [primary_succ, primary_succ]
    exact ⟨he, primaryForm_eases he hprimary⟩

/-- A budget of more levels than there are tokens is never spent: every level takes a token of its own. -/
theorem expression_shallow {stop budget : Nat} {ts : List Token} {e : SyntaxError} (hbudget : ts.length < budget)
    (h : expression stop budget ts = .error e) : e.fault ≠ .nestedTooDeeply := by
  intro hfault
  obtain ⟨used, rest, rfl, hrefusal⟩ := (reliable stop budget (fun _ : Unit => stop) (fun _ => 0)).1.refuses h
  have := hrefusal.deep hfault
  simp only [List.length_append] at hbudget
  omega

end Parser

/-! ## Whole sources -/

theorem SyntaxFault.message_eq_nestedTooDeeply {f : SyntaxFault} :
    f.message = "Expression nested too deeply" ↔ f = .nestedTooDeeply := by
  constructor
  · intro h
    have hstart (first : String) {shown rest : String} (heq : first ++ shown ++ rest = "Expression nested too deeply") :
        first.toList = "Expression nested too deeply".toList.take first.length := by
      rw [← heq, String.append_assoc, String.toList_append, ← String.length_toList, List.take_left]
    cases f with
    | nestedTooDeeply => rfl
    | unexpectedEnd => exact absurd h (by decide)
    | missingColon => exact absurd h (by decide)
    | missingProperty => exact absurd h (by decide)
    | invalidNumber text => exact absurd (hstart "Invalid number '" h) (by decide)
    | unexpectedToken text => exact absurd (hstart "Unexpected token '" h) (by decide)
    | missingPunctuation text => exact absurd (hstart "Expected '" h) (by decide)
    | lexical f =>
      cases f with
      | unterminatedString => exact absurd h (by decide)
      | unexpectedCharacter c =>
        have hmessage : "Unexpected character '" ++ toString c ++ "'" = "Expression nested too deeply" := h
        exact absurd (hstart "Unexpected character '" hmessage) (by decide)
  · rintro rfl
    rfl

/-- Parsing failed at a place because the limit of nested levels was reached there. -/
def NestedTooDeeplyAt (r : Except SyntaxError Expr) (position : Nat) : Prop :=
  ∃ e, r = .error e ∧ e.fault.message = "Expression nested too deeply" ∧ e.position = position

theorem nestedTooDeeplyAt_iff {r : Except SyntaxError Expr} {position : Nat} :
    NestedTooDeeplyAt r position ↔ r = .error ⟨.nestedTooDeeply, position⟩ := by
  constructor
  · rintro ⟨⟨fault, _⟩, rfl, hmessage, rfl⟩
    obtain rfl : fault = .nestedTooDeeply := SyntaxFault.message_eq_nestedTooDeeply.1 hmessage
    rfl
  · rintro rfl
    exact ⟨_, rfl, rfl, rfl⟩

section Limits

variable {strict : Bool} {source : String} {stop maxDepth maxDepth' position : Nat} {ts words rest mid : List Token}

/-- Along tokens whose places go up to the end marker, an end of them starts later than they do. -/
theorem place_le_place (hplaces : (mid.map Token.position ++ [stop]).Pairwise (· ≤ ·)) (h : rest <:+ mid) :
    Parser.place stop mid ≤ Parser.place stop rest := by
  cases mid with
  | nil => rw [List.suffix_nil.1 h]
  | cons t mid =>
    obtain ⟨hbehind, -⟩ := List.pairwise_cons.1 hplaces
    cases rest with
    | nil => exact hbehind stop (by simp)
    | cons t' rest =>
      rcases List.mem_cons.1 (h.mem (List.mem_cons_self ..)) with rfl | ht'
      · exact Nat.le_refl _
      · exact hbehind _ (List.mem_append_left _ (List.mem_map_of_mem ht'))

/-- A source with tokens has its only end marker behind them, and their places go up to it. -/
theorem exists_words (h : tokenize strict source = .ok ts) : ∃ words,
    ts = words ++ [⟨.endOfInput, "", source.length⟩] ∧ (∀ t ∈ words, t.kind ≠ .endOfInput) ∧
    (words.map Token.position ++ [source.length]).Pairwise (· ≤ ·) := by
  obtain ⟨pieces, -, hcut, rfl⟩ := exists_pieces (tokensFrom_lenient h)
  rw [Nat.zero_add, String.length_toList]
  refine ⟨_, rfl, hcut.kind_ne, ?_⟩
  have hplaces := (List.pairwise_cons.1 (ordered_tokensFrom h)).2
  rwa [Nat.zero_add, String.length_toList, List.map_append] at hplaces

/-- Only an expression within the tokens can lack a level. -/
theorem parseTokens_tooDeep (h : Walk.Marked ts words stop) :
    parseTokens maxDepth ts = .error ⟨.nestedTooDeeply, position⟩ ↔
      Parser.expression stop maxDepth words = .error ⟨.nestedTooDeeply, position⟩ := by
  rw [parseTokens, h.beforeEnd_eq, h.endPlace_eq]
  cases Parser.expression stop maxDepth words with
  | error e => simp [bind, Except.bind]
  | ok p =>
    obtain ⟨e, left, hlt⟩ := p
    cases left <;> simp [bind, Except.bind]

/-- With a larger limit the result is the same, unless the smaller one was reached. Where the larger one is reached,
the smaller one was reached before. -/
theorem parseTokens_eases (h : Walk.Marked ts words stop) (hle : maxDepth ≤ maxDepth') :
    parseTokens maxDepth ts = parseTokens maxDepth' ts ∨ ∃ mid, mid <:+ words ∧
      parseTokens maxDepth ts = .error ⟨.nestedTooDeeply, Parser.place stop mid⟩ ∧
      ∀ position, parseTokens maxDepth' ts = .error ⟨.nestedTooDeeply, position⟩ →
        ∃ rest, rest <:+ mid ∧ position = Parser.place stop rest := by
  rcases ((Parser.easing stop hle).1 words).2 with heq | ⟨mid, hmid, hdeep, hwithin⟩
  · left
    rw [parseTokens, parseTokens, h.beforeEnd_eq, h.endPlace_eq, heq]
  · right
    refine ⟨mid, hmid, (parseTokens_tooDeep h).2 hdeep, fun position hposition => ?_⟩
    rw [(parseTokens_tooDeep h).1 hposition] at hwithin
    exact hwithin rfl

/--
A larger limit of nested levels changes nothing but the places where it is reached. Where a limit is not reached, a
larger one gives the same result; where the larger one is reached, so is the smaller one, and not later; and no limit
above the number of tokens is reached. The machine that counts its levels up and down comes out as the parser does,
and each of its parts leaves the count as it was, whether it fails or not.
-/
theorem parseTokens_limit {strict : Bool} {source : String} {ts : List Token}
    (htokens : tokenize strict source = .ok ts) :
    ∃ words, ts = words ++ [⟨.endOfInput, "", source.length⟩] ∧ (∀ t ∈ words, t.kind ≠ .endOfInput) ∧
      (∀ d d', d ≤ d' →
        ((∀ q, ¬NestedTooDeeplyAt (parseTokens d ts) q) → parseTokens d' ts = parseTokens d ts) ∧
        ∀ q', NestedTooDeeplyAt (parseTokens d' ts) q' → ∃ q ≤ q', NestedTooDeeplyAt (parseTokens d ts) q) ∧
      (∀ d, words.length < d → ∀ q, ¬NestedTooDeeplyAt (parseTokens d ts) q) ∧
      ∀ d fuel,
        (2 * words.length + 1 < fuel → ∃ index ≤ words.length,
          Walk.parse ts d fuel ⟨0, 0⟩ = some (parseTokens d ts, ⟨index, 0⟩)) ∧
        ∀ least name,
          (∀ x ∈ [Walk.expression ts d fuel, Walk.primary ts d fuel,
              Walk.binary ts (Walk.primary ts d fuel) fuel least,
              Walk.named ts (Walk.expression ts d fuel) fuel name],
            ∀ c o c', x c = some (o, c') → c'.depth = c.depth) ∧
          ∀ c o c', Walk.arguments ts (Walk.expression ts d fuel) fuel c = some (o, c') → c'.depth = c.depth := by
  obtain ⟨words, rfl, hwords, hplaces⟩ := exists_words htokens
  have h : Walk.Marked (words ++ [⟨.endOfInput, "", source.length⟩]) words source.length :=
    marked_append hwords rfl []
  refine ⟨words, rfl, hwords, fun d d' hle => ?_, fun d hd q => ?_, fun d fuel => ⟨h.parse_eq fuel, ?_⟩⟩
  · simp only [nestedTooDeeplyAt_iff]
    rcases parseTokens_eases h hle with heq | ⟨mid, hmid, hdeep, hlater⟩
    · rw [heq]
      exact ⟨fun _ => rfl, fun q' hq' => ⟨q', Nat.le_refl _, hq'⟩⟩
    · refine ⟨fun hne => absurd hdeep (hne _), fun q' hq' => ⟨_, ?_, hdeep⟩⟩
      obtain ⟨rest, hrest, rfl⟩ := hlater q' hq'
      have hends : mid.map Token.position ++ [source.length] <:+ words.map Token.position ++ [source.length] := by
        obtain ⟨used, rfl⟩ := hmid
        exact ⟨used.map Token.position, by simp⟩
      exact place_le_place (hplaces.sublist hends.sublist) hrest
  · rw [nestedTooDeeplyAt_iff, parseTokens_tooDeep h]
    intro hdeep
    exact Parser.expression_shallow hd hdeep rfl
  · obtain ⟨hexpression, hprimary⟩ := Walk.orderly (words ++ [⟨.endOfInput, "", source.length⟩]) d fuel
    refine fun least name => ⟨fun x hx c o c' hc => ?_, fun c o c' hc => hexpression.arguments.depth_eq hc⟩
    simp only [List.mem_cons, List.not_mem_nil, or_false] at hx
    obtain rfl | rfl | rfl | rfl := hx
    · exact hexpression.depth_eq hc
    · exact hprimary.depth_eq hc
    · exact hprimary.binary.depth_eq hc
    · exact hexpression.named.depth_eq hc

/-- One level is reached inside the first of two parentheses, so that none is reached no later; four are more than
three tokens need, and more of them find the same fault. -/
theorem parseTokens_limit_parentheses :
    tokenize true "((x" = .ok [⟨.punctuation, "(", 0⟩, ⟨.punctuation, "(", 1⟩, ⟨.identifier, "x", 2⟩,
        ⟨.endOfInput, "", 3⟩] ∧
      ∀ ts, ts = [⟨.punctuation, "(", 0⟩, ⟨.punctuation, "(", 1⟩, ⟨.identifier, "x", 2⟩, ⟨.endOfInput, "", 3⟩] →
        NestedTooDeeplyAt (parseTokens 1 ts) 1 ∧ (∃ q ≤ 1, NestedTooDeeplyAt (parseTokens 0 ts) q) ∧
        (∀ q, ¬NestedTooDeeplyAt (parseTokens 4 ts) q) ∧ parseTokens 100 ts = parseTokens 4 ts := by
  have htokens : tokenize true "((x" = .ok [⟨.punctuation, "(", 0⟩, ⟨.punctuation, "(", 1⟩, ⟨.identifier, "x", 2⟩,
      ⟨.endOfInput, "", 3⟩] := by cbv
  refine ⟨htokens, ?_⟩
  rintro ts rfl
  obtain ⟨words, hwords, -, hmonotone, hshallow, hruns⟩ := parseTokens_limit htokens
  obtain rfl : [⟨.punctuation, "(", 0⟩, ⟨.punctuation, "(", 1⟩, ⟨.identifier, "x", 2⟩] = words :=
    List.append_cancel_right hwords
  obtain ⟨index, -, hrun⟩ := (hruns 1 8).1 (by decide)
  have hone : NestedTooDeeplyAt (parseTokens 1 [⟨.punctuation, "(", 0⟩, ⟨.punctuation, "(", 1⟩, ⟨.identifier, "x", 2⟩,
      ⟨.endOfInput, "", 3⟩]) 1 := nestedTooDeeplyAt_iff.2 (congrArg Prod.fst (Option.some.inj hrun)).symm
  have hfour := hshallow 4 (by decide)
  exact ⟨hone, (hmonotone 0 1 (by decide)).2 1 hone, hfour, (hmonotone 4 100 (by decide)).1 hfour⟩

end Limits

end RuleLang
