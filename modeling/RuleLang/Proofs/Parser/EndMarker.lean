import RuleLang.Proofs.Parser.CorrectPrefix
import RuleLang.Proofs.Parser.Cursor

/-!
# Nothing is read behind the first end marker

A reader sees the tokens before the end marker as a list that gets shorter. The machine sees all tokens and an index.
Standing before `rest`, a machine `Ends` as a reader if it has the same value or error, stands before the tokens that
the reader left, and has the same number of levels open. Each form keeps this. Its index is thereby always that of a
token in front of the marker or of the marker itself.
-/

namespace RuleLang

open Grammar (Inner)

namespace Walk

variable {α β : Type} {m n : Nat}

/-- The cursor before the tokens that are left of the words. -/
def before (words rest : List Token) (depth : Nat) : Cursor :=
  ⟨words.length - rest.length, depth⟩

/-- Before `rest` a walk comes out as a reader did: with its value before the tokens that it left, or with its error
before some of its tokens. -/
def Ends (words : List Token) (depth : Nat) (x : Walk α) (rest : List Token)
    (r : Except SyntaxError (Parsed α n)) : Prop :=
  ∃ left, left <:+ rest ∧ (∀ p, r = .ok p → p.rest = left) ∧
    x (before words rest depth) = some (r.map Parsed.value, before words left depth)

/-- A walk comes out as a reader before all ends of the words with fewer than `n` tokens. -/
def Follows (words : List Token) (depth n : Nat) (x : Walk α) (read : Parser α) : Prop :=
  ∀ rest, rest <:+ words → rest.length < n → Ends words depth x rest (read rest)

namespace Ends

variable {words rest : List Token} {depth : Nat}

theorem pure {a : α} {h : rest.length < n} : Ends words depth (pure a) rest (.ok ⟨a, rest, h⟩) :=
  ⟨rest, List.suffix_rfl, by rintro _ ⟨⟩; rfl, rfl⟩

theorem throw {e : SyntaxError} :
    Ends words depth (throw e : Walk α) rest (.error e : Except SyntaxError (Parsed α n)) :=
  ⟨rest, List.suffix_rfl, by simp, rfl⟩

theorem bind {x : Walk α} {f : α → Walk β} {r : Except SyntaxError (Parsed α m)}
    {g : Parsed α m → Except SyntaxError (Parsed β n)} (hx : Ends words depth x rest r)
    (hf : ∀ p, p.rest <:+ rest → Ends words depth (f p.value) p.rest (g p)) :
    Ends words depth (x >>= f) rest (r >>= g) := by
  obtain ⟨mid, hmid, hr, hx⟩ := hx
  cases r with
  | error e =>
    refine ⟨mid, hmid, by rintro _ ⟨⟩, ?_⟩
    rw [bind_apply, hx]
    rfl
  | ok p =>
    obtain rfl := hr p rfl
    obtain ⟨left, hleft, hg, hf⟩ := hf p hmid
    refine ⟨left, hleft.trans hmid, hg, ?_⟩
    rw [bind_apply, hx]
    exact hf

/-- How far the tokens left are bounded does not matter. -/
theorem widen {x : Walk α} {r : Except SyntaxError (Parsed α m)} {h : ∀ p : Parsed α m, p.rest.length < n}
    (hx : Ends words depth x rest r) : Ends words depth x rest (r >>= fun p => .ok ⟨p.value, p.rest, h p⟩) := by
  have := hx.bind (f := Pure.pure) (g := fun p => .ok ⟨p.value, p.rest, h p⟩) fun p _ => .pure
  rwa [bind_pure] at this

variable {tokens : List Token}

theorem nested {x : Walk Expr} {maxDepth : Nat} {r : Except SyntaxError (Parsed Expr n)} (hdepth : depth < maxDepth)
    (hx : Ends words (depth + 1) x rest r) : Ends words depth (nested tokens maxDepth x) rest r := by
  obtain ⟨left, hleft, hr, hend⟩ := hx
  refine ⟨left, hleft, hr, ?_⟩
  rw [before] at hend
  simp only [Walk.nested, before, hdepth, hend, ↓reduceIte]
  rfl

/-- Operands and operators from a first operand on, where the loop over the operators behind it is known. -/
theorem binary {operand : Walk Expr} {readOperand : Parser Expr} {least fuel : Nat}
    (ho : Ends words depth operand rest (readOperand rest))
    (hloop : ∀ left mid, mid <:+ rest → mid.length < rest.length →
      Ends words depth (binaryOn tokens operand fuel least left) mid (Parser.climbOn readOperand least left mid)) :
    Ends words depth (binary tokens operand fuel least) rest (Parser.climb readOperand least rest) := by
  rw [Parser.climb]
  exact ho.bind fun first hfirst => .widen (hloop first.value first.rest hfirst first.fewer)

end Ends

/-! ## Looking at a token and going on -/

/-- Tokens whose first end marker is behind the words, at the place `stop`. -/
structure Marked (tokens words : List Token) (stop : Nat) : Prop where
  inner : ∀ t ∈ words, Inner t
  marker : ∃ marker behind, tokens = words ++ marker :: behind ∧ marker.kind = .endOfInput ∧ marker.position = stop

namespace Marked

variable {tokens words rest ts : List Token} {t : Token} {stop depth : Nat} (h : Marked tokens words stop)
include h

theorem beforeEnd_eq : beforeEnd tokens = words := by
  obtain ⟨marker, behind, rfl, hkind, -⟩ := h.marker
  rw [Grammar.beforeEnd_inner h.inner, beforeEnd, List.takeWhile_cons_of_neg (by simp [hkind]), List.append_nil]

theorem endPlace_eq : endPlace tokens = stop := by
  obtain ⟨marker, behind, rfl, hkind, hplace⟩ := h.marker
  have hnone : words.find? (·.kind = .endOfInput) = none := by
    simpa [List.find?_eq_none] using h.inner
  rw [endPlace, List.find?_append, hnone]
  simp [hkind, hplace]

theorem current_nil (depth : Nat) : ∃ marker : Token, marker.kind = .endOfInput ∧ marker.position = stop ∧
    current tokens (before words [] depth) = some (.ok marker, before words [] depth) := by
  obtain ⟨marker, behind, rfl, hkind, hplace⟩ := h.marker
  exact ⟨marker, hkind, hplace, by simp [current, before]⟩

theorem current_cons (hrest : t :: ts <:+ words) :
    current tokens (before words (t :: ts) depth) = some (.ok t, before words (t :: ts) depth) := by
  obtain ⟨marker, behind, rfl, -, -⟩ := h.marker
  obtain ⟨used, rfl⟩ := hrest
  simp [current, before]

theorem advance_cons (hrest : t :: ts <:+ words) :
    advance tokens (before words (t :: ts) depth) = some (.ok (), before words ts depth) := by
  obtain ⟨marker, behind, rfl, -, -⟩ := h.marker
  obtain ⟨used, rfl⟩ := hrest
  have hindex : (used ++ t :: ts).length - (t :: ts).length = used.length := by simp
  have hnext : (used ++ t :: ts).length - ts.length = used.length + 1 := by
    simp only [List.length_append, List.length_cons]
    omega
  have hinside : used.length + 1 < (used ++ t :: ts ++ marker :: behind).length := by
    simp only [List.length_append, List.length_cons]
    omega
  show some (Except.ok (), if _ then _ else _) = _
  simp only [before, hindex, hnext, hinside, ↓reduceIte]

variable {α β : Type} {n : Nat} {r : Except SyntaxError (Parsed β n)}

/-- Before the end of the words a machine sees a marker. -/
theorem look_nil {f : Token → Walk β}
    (hf : ∀ marker, marker.kind = .endOfInput → marker.position = stop → Ends words depth (f marker) [] r) :
    Ends words depth (current tokens >>= f) [] r := by
  obtain ⟨marker, hkind, hplace, hcurrent⟩ := h.current_nil depth
  obtain ⟨left, hleft, hr, hend⟩ := hf marker hkind hplace
  refine ⟨left, hleft, hr, ?_⟩
  rw [bind_apply, hcurrent]
  exact hend

theorem look_cons {f : Token → Walk β} (hrest : t :: ts <:+ words) (hf : Ends words depth (f t) (t :: ts) r) :
    Ends words depth (current tokens >>= f) (t :: ts) r := by
  obtain ⟨left, hleft, hr, hend⟩ := hf
  refine ⟨left, hleft, hr, ?_⟩
  rw [bind_apply, h.current_cons hrest]
  exact hend

theorem go_on {f : Unit → Walk β} (hrest : t :: ts <:+ words) (hf : Ends words depth (f ()) ts r) :
    Ends words depth (advance tokens >>= f) (t :: ts) r := by
  obtain ⟨left, hleft, hr, hend⟩ := hf
  refine ⟨left, hleft.trans (List.suffix_cons _ _), hr, ?_⟩
  rw [bind_apply, h.advance_cons hrest]
  exact hend

theorem fail {fault : SyntaxFault} (hrest : rest <:+ words) :
    Ends words depth (failHere tokens fault : Walk β) rest
      (Parser.fail stop fault rest : Except SyntaxError (Parsed β n)) := by
  cases rest with
  | nil =>
    refine h.look_nil fun marker _ hplace => ?_
    rw [hplace]
    exact .throw
  | cons t ts => exact h.look_cons hrest .throw

theorem expect {mark : String} (hrest : rest <:+ words) :
    Ends words depth (expect tokens mark) rest (Parser.punctuation stop mark rest) := by
  cases rest with
  | nil =>
    refine h.look_nil fun marker hkind _ => ?_
    rw [Token.isPunctuation_of_kind mark (by simp [hkind])]
    exact h.fail hrest
  | cons t ts =>
    refine h.look_cons hrest ?_
    rw [Parser.punctuation, Parser.take]
    split
    · exact ⟨ts, List.suffix_cons _ _, by rintro _ ⟨⟩; rfl, h.advance_cons hrest⟩
    · exact h.fail hrest

/-! ## The forms -/

section Forms

variable {operand whole condition : Walk Expr} {readOperand readWhole readCondition : Parser Expr}
  {least fuel : Nat} {left : Expr}

/-- The loop over the operators, with fuel for each token that is left. -/
theorem binaryOn (hrest : rest <:+ words) (hn : rest.length ≤ n)
    (ho : Follows words depth n operand readOperand) (hfuel : rest.length < fuel) :
    Ends words depth (binaryOn tokens operand fuel least left) rest
      (Parser.climbOn readOperand least left rest) := by
  induction fuel generalizing rest least left with
  | zero => exact absurd hfuel (Nat.not_lt_zero _)
  | succ fuel ih =>
    rw [Parser.climbOn.eq_def]
    cases rest with
    | nil =>
      refine h.look_nil fun marker hkind _ => ?_
      have hop : Parser.operator? marker = none := by simp [Parser.operator?, hkind]
      rw [hop]
      exact .pure
    | cons t ts =>
      refine h.look_cons hrest ?_
      have hts : ts <:+ words := (List.suffix_cons t ts).trans hrest
      simp only [List.length_cons] at hn hfuel
      cases hop : Parser.operator? t with
      | none =>
        simp only [hop]
        exact .pure
      | some op =>
        by_cases hleast : op.precedence < least
        · simp only [hop, hleast, ↓reduceIte]
          exact .pure
        · simp only [hop, hleast, ↓reduceIte]
          refine h.go_on hrest ?_
          -- The operand and the loop behind it are what climbing from the next precedence reads.
          rw [← bind_assoc]
          have hright : Ends words depth (Walk.binary tokens operand fuel (op.precedence + 1)) ts
              (Parser.climb readOperand (op.precedence + 1) ts) :=
            (ho ts hts (by omega)).binary fun left mid hmid hlt =>
              ih (hmid.trans hts) (by omega) (by omega)
          refine hright.bind fun right hmid => ?_
          exact .widen (ih (hmid.trans hts) (by have := right.fewer; omega) (by have := right.fewer; omega))

theorem binary (hrest : rest <:+ words) (hn : rest.length < n)
    (ho : Follows words depth n operand readOperand) (hfuel : rest.length ≤ fuel) :
    Ends words depth (binary tokens operand fuel least) rest (Parser.climb readOperand least rest) :=
  (ho rest hrest hn).binary fun _ _ hmid hlt =>
    h.binaryOn (hmid.trans hrest) (by omega) ho (by omega)

theorem ternary (hrest : rest <:+ words) (hc : Ends words depth condition rest (readCondition rest))
    (hw : Follows words depth rest.length whole readWhole) :
    Ends words depth (ternary tokens condition whole) rest
      (Parser.ternary stop readCondition readWhole rest) := by
  refine hc.bind fun p hp => ?_
  obtain ⟨c, mid, hmid⟩ := p
  have hmidwords : mid <:+ words := hp.trans hrest
  cases mid with
  | nil =>
    refine h.look_nil fun marker hkind _ => ?_
    rw [Token.isOperator_of_kind "?" (by simp [hkind])]
    exact .pure
  | cons t ts =>
    refine h.look_cons hmidwords ?_
    have hts : ts <:+ words := (List.suffix_cons t ts).trans hmidwords
    simp only [List.length_cons] at hmid
    by_cases ht : t.isOperator "?"
    · simp only [ht, ↓reduceIte]
      refine h.go_on hmidwords ?_
      refine (hw ts hts (by omega)).bind fun yes hyes => ?_
      obtain ⟨yes, after, hafter⟩ := yes
      have hafterwords : after <:+ words := hyes.trans hts
      cases after with
      | nil =>
        refine h.look_nil fun marker hkind _ => ?_
        rw [Token.isOperator_of_kind ":" (by simp [hkind])]
        exact h.fail hafterwords
      | cons colon ns =>
        refine h.look_cons hafterwords ?_
        have hns : ns <:+ words := (List.suffix_cons colon ns).trans hafterwords
        simp only [List.length_cons] at hafter
        by_cases hcolon : colon.isOperator ":"
        · simp only [Parser.take, hcolon, ↓reduceIte]
          refine h.go_on hafterwords ?_
          exact (hw ns hns (by omega)).bind fun no _ => .pure
        · simp only [Parser.take, hcolon, ↓reduceIte, Bool.false_eq_true]
          exact h.fail hafterwords
    · simp only [ht, ↓reduceIte, Bool.false_eq_true]
      exact .pure

theorem argumentList (hrest : rest <:+ words) (hn : rest.length < n)
    (hw : Follows words depth n whole readWhole) (hfuel : rest.length < fuel) :
    Ends words depth (argumentList tokens whole fuel) rest (Parser.argumentList stop readWhole rest) := by
  induction fuel generalizing rest with
  | zero => exact absurd hfuel (Nat.not_lt_zero _)
  | succ fuel ih =>
    rw [Parser.argumentList]
    refine (hw rest hrest hn).bind fun p hp => ?_
    obtain ⟨e, mid, hmid⟩ := p
    have hmidwords : mid <:+ words := hp.trans hrest
    have hclose : Ends words depth (Walk.expect tokens ")" >>= fun _ => pure [e]) mid
        (Parser.punctuation stop ")" mid >>= fun close =>
          (.ok ⟨[e], close.rest, close.fewer.trans hmid⟩ : Except SyntaxError (Parsed _ rest.length))) :=
      (h.expect hmidwords).bind fun _ _ => .pure
    cases mid with
    | nil =>
      refine h.look_nil fun marker hkind _ => ?_
      rw [Token.isPunctuation_of_kind "," (by simp [hkind])]
      exact hclose
    | cons t ts =>
      refine h.look_cons hmidwords ?_
      have hts : ts <:+ words := (List.suffix_cons t ts).trans hmidwords
      simp only [List.length_cons] at hmid
      by_cases ht : t.isPunctuation ","
      · simp only [ht, ↓reduceIte]
        refine h.go_on hmidwords ?_
        exact (ih hts (by omega) (by omega)).bind fun more _ => .pure
      · simp only [ht, ↓reduceIte, Bool.false_eq_true]
        rw [Parser.punctuation, Parser.take] at hclose
        split at hclose <;> rename_i hparen <;> simp only [hparen, ↓reduceIte, Bool.false_eq_true] <;> exact hclose

theorem arguments (hrest : rest <:+ words) (hn : rest.length < n)
    (hw : Follows words depth n whole readWhole) (hfuel : rest.length < fuel) :
    Ends words depth (arguments tokens whole fuel) rest (Parser.arguments stop readWhole rest) := by
  cases rest with
  | nil =>
    refine h.look_nil fun marker hkind _ => ?_
    rw [Token.isPunctuation_of_kind ")" (by simp [hkind])]
    exact h.argumentList hrest hn hw hfuel
  | cons t ts =>
    refine h.look_cons hrest ?_
    rw [Parser.arguments]
    split
    · exact h.go_on hrest .pure
    · exact h.argumentList hrest hn hw hfuel

theorem path {root : String} {segments : List Segment} (hrest : rest <:+ words) (hn : rest.length ≤ n)
    (hw : Follows words depth n whole readWhole) (hfuel : rest.length < fuel) :
    Ends words depth (path tokens whole root fuel segments) rest
      (Parser.path stop readWhole root segments rest) := by
  induction fuel generalizing rest segments with
  | zero => exact absurd hfuel (Nat.not_lt_zero _)
  | succ fuel ih =>
    rw [Parser.path.eq_def]
    cases rest with
    | nil =>
      refine h.look_nil fun marker hkind _ => ?_
      simp only [Token.isPunctuation_of_kind _ (show marker.kind ≠ .punctuation by simp [hkind]),
        Bool.false_eq_true, ↓reduceIte]
      exact .pure
    | cons t ts =>
      refine h.look_cons hrest ?_
      have hts : ts <:+ words := (List.suffix_cons t ts).trans hrest
      simp only [List.length_cons] at hn hfuel
      by_cases hcall : t.isPunctuation "("
      · simp only [hcall, ↓reduceIte]
        refine h.go_on hrest ?_
        exact (h.arguments hts (by omega) hw (by omega)).bind fun args _ => .pure
      by_cases hdot : t.isPunctuation "."
      · simp only [hcall, hdot, ↓reduceIte, Bool.false_eq_true]
        refine h.go_on hrest ?_
        cases ts with
        | nil =>
          refine h.look_nil fun marker hkind _ => ?_
          simp only [hkind, reduceCtorEq, ↓reduceIte]
          exact h.fail hts
        | cons name ts =>
          refine h.look_cons hts ?_
          by_cases hname : name.kind = .identifier
          · simp only [hname, ↓reduceIte]
            refine h.go_on hts ?_
            simp only [List.length_cons] at hn hfuel
            exact .widen (ih ((List.suffix_cons name ts).trans hts) (by omega) (by omega))
          · simp only [hname, ↓reduceIte]
            exact h.fail hts
      by_cases hindex : t.isPunctuation "["
      · simp only [hcall, hdot, hindex, ↓reduceIte, Bool.false_eq_true]
        refine h.go_on hrest ?_
        refine (hw ts hts (by omega)).bind fun index hmid => ?_
        have hmidwords := hmid.trans hts
        refine (h.expect hmidwords).bind fun close hafter => ?_
        have := index.fewer
        have := close.fewer
        exact .widen (ih (hafter.trans hmidwords) (by omega) (by omega))
      · simp only [hcall, hdot, hindex, ↓reduceIte, Bool.false_eq_true]
        exact .pure

theorem named {name : String} (hrest : rest <:+ words) (hn : rest.length ≤ n)
    (hw : Follows words depth n whole readWhole) (hfuel : rest.length < fuel) :
    Ends words depth (named tokens whole fuel name) rest (Parser.named stop readWhole name rest) := by
  have hpath : Ends words depth (Walk.path tokens whole name fuel []) rest
      (Parser.path stop readWhole name [] rest) := h.path hrest hn hw hfuel
  cases rest with
  | nil =>
    refine h.look_nil fun marker hkind _ => ?_
    have hends : Parser.continuesPath [marker] = false := by
      simp [Parser.continuesPath, Token.isPunctuation_of_kind _ (show marker.kind ≠ .punctuation by simp [hkind])]
    rw [Token.isOperator_of_kind "=>" (by simp [hkind]), hends]
    cases hb : Parser.booleanName? name with
    | some x =>
      simp only [Parser.named, hb]
      exact .pure
    | none =>
      simp only [Parser.named, hb]
      rw [Parser.path.eq_def] at hpath
      exact hpath
  | cons t ts =>
    refine h.look_cons hrest ?_
    have hts : ts <:+ words := (List.suffix_cons t ts).trans hrest
    simp only [List.length_cons] at hn
    rw [Parser.named.eq_def]
    by_cases harrow : t.isOperator "=>"
    · simp only [harrow, ↓reduceIte]
      refine h.go_on hrest ?_
      exact (hw ts hts (by omega)).bind fun body _ => .pure
    · simp only [harrow, ↓reduceIte, Bool.false_eq_true]
      have hsame : Parser.continuesPath [t] = Parser.continuesPath (t :: ts) := rfl
      rw [hsame]
      cases Parser.booleanName? name with
      | none => exact hpath
      | some x =>
        cases Parser.continuesPath (t :: ts) with
        | false => exact .pure
        | true => exact hpath

theorem primaryForm (hrest : rest <:+ words) (hw : Follows words depth rest.length whole readWhole)
    (ho : Follows words depth rest.length operand readOperand) (hfuel : rest.length ≤ fuel) :
    Ends words depth (primaryForm tokens whole operand fuel) rest
      (Parser.primaryForm stop readWhole readOperand rest) := by
  cases rest with
  | nil =>
    refine h.look_nil fun marker hkind hplace => ?_
    simp only [hkind]
    rw [hplace]
    exact .throw
  | cons t ts =>
    refine h.look_cons hrest ?_
    have hts : ts <:+ words := (List.suffix_cons t ts).trans hrest
    simp only [List.length_cons] at hw ho hfuel
    rw [Parser.primaryForm]
    dsimp only
    cases t.kind with
    | number =>
      refine h.go_on hrest ?_
      cases Number.read? t.text with
      | some x => exact .pure
      | none => exact .throw
    | string => exact h.go_on hrest .pure
    | identifier => exact h.go_on hrest (h.named hts (Nat.le_succ _) hw hfuel)
    | punctuation =>
      by_cases hopen : t.text = "("
      · simp only [hopen, ↓reduceIte]
        refine h.go_on hrest ?_
        refine (hw ts hts (by omega)).bind fun inside hmid => ?_
        exact (h.expect (hmid.trans hts)).bind fun close _ => .pure
      · simp only [hopen, ↓reduceIte]
        exact .throw
    | operator =>
      dsimp only
      cases if t.text = "-" then some UnaryOp.neg else if t.text = "!" then some UnaryOp.not else none with
      | some op =>
        refine h.go_on hrest ?_
        exact (ho ts hts (by omega)).bind fun e _ => .pure
      | none => exact .throw
    | endOfInput => exact .throw

end Forms

section Levels

variable {x : Walk Expr} {maxDepth : Nat}

theorem nested_full (hrest : rest <:+ words) :
    Ends words maxDepth (Walk.nested tokens maxDepth x) rest (Parser.tooDeep stop rest) := by
  have hfail : Ends words maxDepth (failHere tokens .nestedTooDeeply : Walk Expr) rest
      (Parser.fail stop .nestedTooDeeply rest : Except SyntaxError (Parsed Expr rest.length)) := h.fail hrest
  obtain ⟨left, hleft, hr, hend⟩ := hfail
  refine ⟨left, hleft, hr, ?_⟩
  rw [Walk.nested, if_neg (show ¬(before words rest maxDepth).depth < maxDepth from Nat.lt_irrefl _)]
  exact hend

/-- The machine reads as the readers do whose budget is the levels that it has left. A token costs two of fuel: one
for the primary that it starts, one for the expression. -/
theorem follows (fuel budget : Nat) (hdepth : depth + budget = maxDepth) :
    (∀ rest, rest <:+ words → 2 * rest.length + 1 < fuel →
      Ends words depth (expression tokens maxDepth fuel) rest (Parser.expression stop budget rest)) ∧
    ∀ rest, rest <:+ words → 2 * rest.length < fuel →
      Ends words depth (primary tokens maxDepth fuel) rest (Parser.primary stop budget rest) := by
  induction fuel generalizing depth budget with
  | zero =>
    have hnone {k : Nat} (hk : k < 0) : False := Nat.not_lt_zero k hk
    exact ⟨fun _ _ hfuel => (hnone hfuel).elim, fun _ _ hfuel => (hnone hfuel).elim⟩
  | succ fuel ih =>
    constructor
    · intro rest hrest hfuel
      cases budget with
      | zero =>
        obtain rfl : depth = maxDepth := hdepth
        rw [Parser.expression_zero]
        exact h.nested_full hrest
      | succ budget =>
        rw [Parser.expression_succ]
        have hdepth' : depth + 1 + budget = maxDepth := by omega
        obtain ⟨hexpression, hprimary⟩ := ih budget hdepth'
        have hoperand : Follows words (depth + 1) (rest.length + 1) (primary tokens maxDepth fuel)
            (Parser.primary stop budget) := fun mid hmid hlt => hprimary mid hmid (by omega)
        refine .nested (by omega) (h.ternary hrest (h.binary hrest (Nat.lt_succ_self _) hoperand (by omega)) ?_)
        exact fun mid hmid hlt => hexpression mid hmid (by omega)
    · intro rest hrest hfuel
      have hwhole : Follows words depth rest.length (expression tokens maxDepth fuel)
          (Parser.expression stop budget) := fun mid hmid hlt => (ih budget hdepth).1 mid hmid (by omega)
      cases budget with
      | zero =>
        obtain rfl : depth = maxDepth := hdepth
        rw [Parser.primary_zero]
        exact h.primaryForm hrest hwhole (fun mid hmid _ => h.nested_full hmid) (by omega)
      | succ budget =>
        rw [Parser.primary_succ]
        have hdepth' : depth + 1 + budget = maxDepth := by omega
        refine h.primaryForm hrest hwhole (fun mid hmid hlt => .nested (by omega) ?_) (by omega)
        exact (ih budget hdepth').2 mid hmid (by omega)

/-- With enough fuel the machine ends as the parser does. It then stands before one of the words or before the first
end marker, and no level is open. -/
theorem parse_eq (fuel : Nat) (hfuel : 2 * words.length + 1 < fuel) : ∃ index ≤ words.length,
    parse tokens maxDepth fuel ⟨0, 0⟩ = some (parseTokens maxDepth tokens, ⟨index, 0⟩) := by
  have hstart : (⟨0, 0⟩ : Cursor) = before words words 0 := by simp [before]
  obtain ⟨left, hleft, hr, hend⟩ := (h.follows fuel maxDepth (Nat.zero_add maxDepth)).1 words List.suffix_rfl hfuel
  refine ⟨words.length - left.length, Nat.sub_le _ _, ?_⟩
  rw [parse, bind_apply, hstart, hend, parseTokens, h.endPlace_eq, h.beforeEnd_eq]
  cases he : Parser.expression stop maxDepth words with
  | error e => rfl
  | ok p =>
    obtain rfl := hr p he
    obtain ⟨e, left, hlt⟩ := p
    show (current tokens >>= _ : Walk Expr) (before words left 0) = _
    cases left with
    | nil =>
      obtain ⟨marker, hkind, -, hcurrent⟩ := h.current_nil 0
      rw [bind_apply, hcurrent]
      simp only [Option.bind_some, hkind, ↓reduceIte]
      rfl
    | cons t ts =>
      have hkind : t.kind ≠ .endOfInput := h.inner t (hleft.mem (List.mem_cons_self ..))
      rw [bind_apply, h.current_cons hleft]
      simp only [Option.bind_some, hkind, ↓reduceIte]
      rfl

end Levels

end Marked

end Walk

section Results

variable {words : List Token} {marker : Token}

theorem Walk.Marked.parseTokens_congr {tokens tokens' : List Token} {stop : Nat} (maxDepth : Nat)
    (h : Marked tokens words stop) (h' : Marked tokens' words stop) :
    parseTokens maxDepth tokens = parseTokens maxDepth tokens' := by
  rw [parseTokens, parseTokens, h.beforeEnd_eq, h.endPlace_eq, h'.beforeEnd_eq, h'.endPlace_eq]

theorem marked_append (hwords : ∀ t ∈ words, Inner t) (hmarker : marker.kind = .endOfInput) (behind : List Token) :
    Walk.Marked (words ++ marker :: behind) words marker.position :=
  ⟨hwords, marker, behind, rfl, hmarker, rfl⟩

/-- An end marker is put behind the tokens if none is the last, so that the first stays the first. -/
theorem marked_withEnd (hwords : ∀ t ∈ words, Inner t) (hmarker : marker.kind = .endOfInput) (behind : List Token) :
    Walk.Marked (withEnd (words ++ marker :: behind)) words marker.position := by
  rw [withEnd]
  split
  · exact marked_append hwords hmarker behind
  · rw [List.append_assoc, List.cons_append]
    exact marked_append hwords hmarker _

/-- Behind tokens without an end marker one is put just behind the last of them. -/
theorem marked_withEnd_inner (hwords : ∀ t ∈ words, Inner t) :
    Walk.Marked (withEnd words) words ((words.getLast?.map Token.endPosition).getD 0) := by
  have hlast : ¬words.getLast?.any (·.kind = .endOfInput) := by
    rw [Option.any_eq_true]
    rintro ⟨t, ht, hkind⟩
    exact hwords t (List.mem_of_getLast? ht) (by simpa using hkind)
  rw [withEnd, if_neg hlast]
  have hmarker : (⟨.endOfInput, "", (words.getLast?.map Token.endPosition).getD 0⟩ : Token).kind = .endOfInput := rfl
  exact marked_append hwords hmarker []

theorem parseTokens_withEnd_inner (maxDepth : Nat) (hwords : ∀ t ∈ words, Inner t) :
    parseTokens maxDepth (withEnd words) = parseTokens maxDepth words := by
  have h := marked_withEnd_inner hwords
  have hnone : words.find? (·.kind = .endOfInput) = none := by simpa [List.find?_eq_none] using hwords
  have hbefore : beforeEnd words = words := by simpa [beforeEnd] using Grammar.beforeEnd_inner hwords []
  rw [parseTokens, parseTokens, h.beforeEnd_eq, h.endPlace_eq, hbefore, endPlace, hnone]

/-- What the machine does over tokens and the end marker behind them. -/
theorem Walk.Marked.runs {ts : List Token} {stop maxDepth : Nat} (h : Marked (withEnd ts) words stop)
    (hsame : parseTokens maxDepth (withEnd ts) = parseTokens maxDepth ts) :
    words.length < (withEnd ts).length ∧
    (∀ fuel, Orderly (withEnd ts) (expression (withEnd ts) maxDepth fuel) ∧
      Orderly (withEnd ts) (primary (withEnd ts) maxDepth fuel)) ∧
    ∀ fuel, 2 * words.length + 1 < fuel → ∃ index ≤ words.length,
      parse (withEnd ts) maxDepth fuel ⟨0, 0⟩ = some (parseTokens maxDepth ts, ⟨index, 0⟩) := by
  refine ⟨?_, orderly (withEnd ts) maxDepth, fun fuel hfuel => hsame ▸ h.parse_eq fuel hfuel⟩
  obtain ⟨marker, behind, hts, -, -⟩ := h.marker
  simp [hts]

/--
Nothing at or behind the first end marker is read past. What follows it does not matter, and tokens without one are
parsed as with one just behind the last of them. The machine that goes over all tokens with an unchecked index stops
with the parser's result, at a token before the first marker or at the marker, and its index never goes back.
-/
theorem parseTokens_stops_at_marker (pre post : List Token) (t : Token) (maxDepth : Nat)
    (hpre : ∀ a ∈ pre, a.kind ≠ .endOfInput) (ht : t.kind = .endOfInput) :
    parseTokens maxDepth (pre ++ [t] ++ post) = parseTokens maxDepth (pre ++ [t]) ∧
    (∀ t' : Token, t'.kind = .endOfInput →
      t'.position = (pre.getLast?.map fun last => last.position + last.text.length).getD 0 →
      parseTokens maxDepth pre = parseTokens maxDepth (pre ++ [t'])) ∧
    ∀ ts ∈ [pre ++ [t] ++ post, pre ++ [t], pre],
      pre.length < (withEnd ts).length ∧
      (∀ fuel, Walk.Orderly (withEnd ts) (Walk.expression (withEnd ts) maxDepth fuel) ∧
        Walk.Orderly (withEnd ts) (Walk.primary (withEnd ts) maxDepth fuel)) ∧
      ∀ fuel, 2 * pre.length + 1 < fuel → ∃ index ≤ pre.length,
        Walk.parse (withEnd ts) maxDepth fuel ⟨0, 0⟩ = some (parseTokens maxDepth ts, ⟨index, 0⟩) := by
  have hsplit : pre ++ [t] ++ post = pre ++ t :: post := by simp
  rw [hsplit]
  refine ⟨(marked_append hpre ht post).parseTokens_congr maxDepth (marked_append hpre ht []), ?_, ?_⟩
  · intro t' ht' hplace
    have hend := marked_append hpre ht' []
    rw [hplace] at hend
    rw [← parseTokens_withEnd_inner maxDepth hpre]
    exact (marked_withEnd_inner hpre).parseTokens_congr maxDepth hend
  · have hmarked : ∀ behind, parseTokens maxDepth (withEnd (pre ++ t :: behind)) =
        parseTokens maxDepth (pre ++ t :: behind) := fun behind =>
      (marked_withEnd hpre ht behind).parseTokens_congr maxDepth (marked_append hpre ht behind)
    intro ts hts
    simp only [List.mem_cons, List.not_mem_nil, or_false] at hts
    obtain rfl | rfl | rfl := hts
    · exact (marked_withEnd hpre ht post).runs (hmarked post)
    · exact (marked_withEnd hpre ht []).runs (hmarked [])
    · exact (marked_withEnd_inner hpre).runs (parseTokens_withEnd_inner maxDepth hpre)

/-- A parenthesis is open at the first of two end markers, and one behind it does not close it. -/
theorem parseTokens_stops_at_marker_open :
    (∀ a ∈ [(⟨.punctuation, "(", 0⟩ : Token), ⟨.identifier, "x", 1⟩], a.kind ≠ .endOfInput) ∧
    parseTokens 3 [⟨.punctuation, "(", 0⟩, ⟨.identifier, "x", 1⟩, ⟨.endOfInput, "", 7⟩, ⟨.punctuation, ")", 8⟩,
      ⟨.endOfInput, "", 9⟩] = .error ⟨.missingPunctuation ")", 7⟩ := by
  have hwords : ∀ a ∈ [(⟨.punctuation, "(", 0⟩ : Token), ⟨.identifier, "x", 1⟩], a.kind ≠ .endOfInput := by decide
  refine ⟨hwords, ?_⟩
  obtain ⟨-, -, hruns⟩ := parseTokens_stops_at_marker [⟨.punctuation, "(", 0⟩, ⟨.identifier, "x", 1⟩]
    [⟨.punctuation, ")", 8⟩, ⟨.endOfInput, "", 9⟩] ⟨.endOfInput, "", 7⟩ 3 hwords rfl
  obtain ⟨-, -, hparse⟩ := hruns _ (List.mem_cons_self ..)
  obtain ⟨index, -, hend⟩ := hparse 6 (by decide)
  exact (congrArg Prod.fst (Option.some.inj hend)).symm

end Results

end RuleLang
