import RuleLang.Proofs.Parser.Grammar
import RuleLang.Proofs.Parser.Reading

/-!
# Where the readers fail

A reader fails where one of the readers that it is made of fails, or at the next token. Each reader has one
statement that lists these ways; together with what the readers read they say all that is needed of a run.
-/

namespace RuleLang.Parser

open RuleLang.Grammar (Starts)

variable {α β : Type} {n stop : Nat} {ts rest rest' : List Token} {err : SyntaxError}

/-- A reader reads one thing only. -/
theorem Reads.unique {r : Except SyntaxError (Parsed α n)} {a a' : α} (h : Reads r a rest) (h' : Reads r a' rest') :
    a = a' ∧ rest = rest' := by
  obtain ⟨_, h⟩ := h
  obtain ⟨_, h'⟩ := h'
  cases h.symm.trans h'
  exact ⟨rfl, rfl⟩

/-- A reader after another fails with the other one, or on what the other left. -/
theorem bind_eq_error {m : Nat} {r : Except SyntaxError (Parsed α m)}
    {f : Parsed α m → Except SyntaxError (Parsed β n)} (h : r >>= f = .error err) :
    r = .error err ∨ ∃ a mid hm, r = .ok ⟨a, mid, hm⟩ ∧ f ⟨a, mid, hm⟩ = .error err := by
  cases r with
  | error e =>
    cases h
    exact .inl rfl
  | ok p => exact .inr ⟨p.value, p.rest, p.fewer, rfl, h⟩

theorem take_eq_error {accepts : Token → Bool} {fault : SyntaxFault} (h : take stop accepts fault ts = .error err) :
    err = ⟨fault, place stop ts⟩ ∧ ∀ t ∈ ts.head?, accepts t = false := by
  cases ts with
  | nil =>
    cases h
    exact ⟨rfl, nofun⟩
  | cons t ts =>
    by_cases ht : accepts t
    · simp [take, ht] at h
    · rw [take, if_neg ht] at h
      cases h
      exact ⟨rfl, by simpa using ht⟩

section Operators

variable {operand : Parser Expr} {least : Nat} {left : Expr}

theorem climb_eq_error (h : climb operand least ts = .error err) :
    operand ts = .error err ∨
      ∃ left mid, Reads (operand ts) left mid ∧ climbOn operand least left mid = .error err := by
  rw [climb] at h
  rcases bind_eq_error h with h | ⟨left, mid, hm, hleft, h⟩
  · exact .inl h
  rcases bind_eq_error h with h | ⟨_, _, _, _, h⟩
  · exact .inr ⟨left, mid, ⟨hm, hleft⟩, h⟩
  · cases h

/-- Climbing on fails only behind an operator. -/
theorem climbOn_eq_error (h : climbOn operand least left ts = .error err) :
    ∃ t mid op, ts = t :: mid ∧ operator? t = some op ∧ least ≤ op.precedence ∧
      (climb operand (op.precedence + 1) mid = .error err ∨
        ∃ right behind, Reads (climb operand (op.precedence + 1) mid) right behind ∧
          climbOn operand least (.binary op left right) behind = .error err) := by
  rw [climbOn.eq_def] at h
  split at h
  · cases h
  next t mid =>
  split at h
  · cases h
  next op hop =>
  split at h
  · cases h
  next hleast =>
  refine ⟨t, mid, op, rfl, hop, Nat.not_lt.1 hleast, ?_⟩
  rcases bind_eq_error h with h | ⟨right, behind, hm, hright, h⟩
  · exact .inl h
  rcases bind_eq_error h with h | ⟨_, _, _, _, h⟩
  · exact .inr ⟨right, behind, ⟨hm, hright⟩, h⟩
  · cases h

end Operators

section Forms

variable {condition whole operand : Parser Expr} {t : Token}

theorem ternary_eq_error (h : ternary stop condition whole ts = .error err) :
    condition ts = .error err ∨ ∃ c question ys, Reads (condition ts) c (question :: ys) ∧
      question.isOperator "?" ∧ (whole ys = .error err ∨ ∃ yes mid, Reads (whole ys) yes mid ∧
        ((err = ⟨.missingColon, place stop mid⟩ ∧ ∀ t ∈ mid.head?, t.isOperator ":" = false) ∨
          ∃ colon ns, mid = colon :: ns ∧ colon.isOperator ":" ∧ whole ns = .error err)) := by
  rw [ternary] at h
  rcases bind_eq_error h with h | ⟨c, mid, hm, hc, h⟩
  · exact .inl h
  split at h
  · cases h
  next question ys _ heq =>
  cases heq
  split at h
  · next hquestion =>
    refine .inr ⟨c, question, ys, ⟨hm, hc⟩, hquestion, ?_⟩
    rcases bind_eq_error h with h | ⟨yes, mid, hm, hyes, h⟩
    · exact .inl h
    refine .inr ⟨yes, mid, ⟨hm, hyes⟩, ?_⟩
    rcases bind_eq_error h with h | ⟨_, ns, hm, hcolon, h⟩
    · exact .inl (take_eq_error h)
    obtain ⟨colon, rfl, hc⟩ := reads_take.1 ⟨hm, hcolon⟩
    refine .inr ⟨colon, ns, rfl, hc, ?_⟩
    rcases bind_eq_error h with h | ⟨_, _, _, _, h⟩
    · exact h
    · cases h
  · cases h

theorem argumentList_eq_error (h : argumentList stop whole ts = .error err) :
    whole ts = .error err ∨ ∃ e mid, Reads (whole ts) e mid ∧
      ((err = ⟨.missingPunctuation ")", place stop mid⟩ ∧
          ∀ t ∈ mid.head?, t.isPunctuation "," = false ∧ t.isPunctuation ")" = false) ∨
        ∃ comma more, mid = comma :: more ∧ comma.isPunctuation "," ∧
          argumentList stop whole more = .error err) := by
  rw [argumentList] at h
  rcases bind_eq_error h with h | ⟨e, mid, hm, he, h⟩
  · exact .inl h
  refine .inr ⟨e, mid, ⟨hm, he⟩, ?_⟩
  split at h
  · next heq =>
    cases heq
    cases h
    exact .inl ⟨rfl, nofun⟩
  next t more _ heq =>
  cases heq
  split at h
  · next hcomma =>
    rcases bind_eq_error h with h | ⟨_, _, _, _, h⟩
    · exact .inr ⟨t, more, rfl, hcomma, h⟩
    · cases h
  next hcomma =>
  split at h
  · cases h
  next hclose =>
  cases h
  refine .inl ⟨rfl, fun t ht => ?_⟩
  cases ht
  exact ⟨Bool.eq_false_iff.2 hcomma, Bool.eq_false_iff.2 hclose⟩

theorem arguments_eq_error (h : arguments stop whole ts = .error err) :
    argumentList stop whole ts = .error err ∧ ∀ t ∈ ts.head?, t.isPunctuation ")" = false := by
  cases ts with
  | nil => exact ⟨h, nofun⟩
  | cons t ts =>
    rw [arguments] at h
    split at h
    · cases h
    · next hclose => exact ⟨h, by simpa using hclose⟩

/-- A path fails behind a point, an opening bracket or an opening parenthesis. -/
theorem path_eq_error {root : String} {segments : List Segment}
    (h : path stop whole root segments ts = .error err) :
    ∃ t mid, ts = t :: mid ∧
      ((t.isPunctuation "(" ∧ arguments stop whole mid = .error err) ∨
        (t.isPunctuation "." ∧
          ((err = ⟨.missingProperty, place stop mid⟩ ∧ ∀ name ∈ mid.head?, name.kind ≠ .identifier) ∨
            ∃ name more, mid = name :: more ∧ name.kind = .identifier ∧
              path stop whole root (segments ++ [.property name.text]) more = .error err)) ∨
        (t.isPunctuation "[" ∧ (whole mid = .error err ∨ ∃ index behind, Reads (whole mid) index behind ∧
          ((err = ⟨.missingPunctuation "]", place stop behind⟩ ∧
              ∀ close ∈ behind.head?, close.isPunctuation "]" = false) ∨
            ∃ close more, behind = close :: more ∧ close.isPunctuation "]" ∧
              path stop whole root (segments ++ [.index index]) more = .error err)))) := by
  rw [path.eq_def] at h
  split at h
  · cases h
  next t mid =>
  refine ⟨t, mid, rfl, ?_⟩
  split at h
  · next hopen =>
    rcases bind_eq_error h with h | ⟨_, _, _, _, h⟩
    · exact .inl ⟨hopen, h⟩
    · cases h
  split at h
  · next hdot =>
    refine .inr (.inl ⟨hdot, ?_⟩)
    split at h
    · cases h
      exact .inl ⟨rfl, by simp⟩
    next name more =>
    split at h
    · next hname =>
      rcases bind_eq_error h with h | ⟨_, _, _, _, h⟩
      · exact .inr ⟨name, more, rfl, hname, h⟩
      · cases h
    · next hname =>
      cases h
      exact .inl ⟨rfl, by simpa using hname⟩
  split at h
  · next hbracket =>
    refine .inr (.inr ⟨hbracket, ?_⟩)
    rcases bind_eq_error h with h | ⟨index, behind, hm, hindex, h⟩
    · exact .inl h
    refine .inr ⟨index, behind, ⟨hm, hindex⟩, ?_⟩
    rcases bind_eq_error h with h | ⟨_, more, hm, hclose, h⟩
    · exact .inl (take_eq_error h)
    obtain ⟨close, rfl, hc⟩ := reads_take.1 ⟨hm, hclose⟩
    refine .inr ⟨close, more, rfl, hc, ?_⟩
    rcases bind_eq_error h with h | ⟨_, _, _, _, h⟩
    · exact h
    · cases h
  · cases h

/-- What starts with a name fails in the body of a lambda or in a path. -/
theorem named_eq_error {name : String} (h : named stop whole name ts = .error err) :
    ∃ t mid, ts = t :: mid ∧
      ((t.isOperator "=>" ∧ whole mid = .error err) ∨
        (t.isOperator "=>" = false ∧ (booleanName? name = none ∨ continuesPath ts) ∧
          path stop whole name [] ts = .error err)) := by
  cases ts with
  | nil => cases hname : booleanName? name <;> simp [named, hname] at h
  | cons t mid =>
    refine ⟨t, mid, rfl, ?_⟩
    rw [named.eq_def] at h
    by_cases harrow : t.isOperator "=>"
    · simp only [harrow, ↓reduceIte] at h
      rcases bind_eq_error h with h | ⟨_, _, _, _, h⟩
      · exact .inl ⟨harrow, h⟩
      · cases h
    simp only [harrow, Bool.false_eq_true, ↓reduceIte] at h
    refine .inr ⟨Bool.eq_false_iff.2 harrow, ?_⟩
    cases hname : booleanName? name with
    | none => exact ⟨.inl rfl, by simpa [hname] using h⟩
    | some x =>
      cases hpath : continuesPath (t :: mid) with
      | true => exact ⟨.inr rfl, by simpa [hname, hpath] using h⟩
      | false => simp [hname, hpath] at h

/-- A primary fails in a name, in parentheses, behind an operator in front, at a number that cannot be read, or at a
token that is the start of no primary. -/
theorem primaryForm_eq_error (h : primaryForm stop whole operand ts = .error err) :
    (∃ t mid, ts = t :: mid ∧
      ((t.kind = .identifier ∧ named stop whole t.text mid = .error err) ∨
        (t.isPunctuation "(" ∧ (whole mid = .error err ∨ ∃ e behind, Reads (whole mid) e behind ∧
          err = ⟨.missingPunctuation ")", place stop behind⟩ ∧
            ∀ close ∈ behind.head?, close.isPunctuation ")" = false)) ∨
        (∃ op : UnaryOp, t.isOperator op.symbol ∧ operand mid = .error err) ∨
        (err = ⟨.invalidNumber t.text, t.position⟩ ∧ t.kind = .number ∧ Number.read? t.text = none))) ∨
      (err.position = place stop ts ∧ (err.fault = .unexpectedEnd ∨ ∃ text, err.fault = .unexpectedToken text) ∧
        ∀ t ∈ ts.head?, ¬Starts t) := by
  cases ts with
  | nil =>
    cases h
    exact .inr ⟨rfl, .inl rfl, nofun⟩
  | cons t mid =>
    cases hk : t.kind with
    | number =>
      cases hx : Number.read? t.text with
      | some x => simp [primaryForm, hk, hx] at h
      | none =>
        simp only [primaryForm, hk, hx] at h
        cases h
        exact .inl ⟨t, mid, rfl, .inr (.inr (.inr ⟨rfl, hk, hx⟩))⟩
    | string => simp [primaryForm, hk] at h
    | identifier =>
      simp only [primaryForm, hk] at h
      exact .inl ⟨t, mid, rfl, .inl ⟨hk, h⟩⟩
    | punctuation =>
      simp only [primaryForm, hk] at h
      split at h
      · next hopen =>
        refine .inl ⟨t, mid, rfl, .inr (.inl ⟨Token.isPunctuation_iff.2 ⟨hk, hopen⟩, ?_⟩)⟩
        rcases bind_eq_error h with h | ⟨e, behind, hm, he, h⟩
        · exact .inl h
        refine .inr ⟨e, behind, ⟨hm, he⟩, ?_⟩
        rcases bind_eq_error h with h | ⟨_, _, _, _, h⟩
        · exact take_eq_error h
        · cases h
      · next hopen =>
        cases h
        refine .inr ⟨rfl, .inr ⟨_, rfl⟩, ?_⟩
        simp [Starts, Token.isPunctuation, Token.isOperator, hk, hopen]
    | operator =>
      simp only [primaryForm, hk] at h
      split at h
      · next op hsign =>
        have hop : t.isOperator op.symbol := by
          refine Token.isOperator_iff.2 ⟨hk, ?_⟩
          split at hsign
          · next hminus =>
            cases hsign
            exact hminus
          split at hsign
          · next hnot =>
            cases hsign
            exact hnot
          · cases hsign
        rcases bind_eq_error h with h | ⟨_, _, _, _, h⟩
        · exact .inl ⟨t, mid, rfl, .inr (.inr (.inl ⟨op, hop, h⟩))⟩
        · cases h
      · next hsign =>
        cases h
        refine .inr ⟨rfl, .inr ⟨_, rfl⟩, fun t' ht' hstarts => ?_⟩
        cases ht'
        rcases hstarts with hk' | hk' | hk' | hp | ⟨op, hop⟩
        · rw [hk] at hk'; cases hk'
        · rw [hk] at hk'; cases hk'
        · rw [hk] at hk'; cases hk'
        · rw [Token.isPunctuation_iff.1 hp |>.1] at hk; cases hk
        · rw [(Token.isOperator_iff.1 hop).2] at hsign
          cases op <;> simp [UnaryOp.symbol] at hsign
    | endOfInput =>
      simp only [primaryForm, hk] at h
      cases h
      refine .inr ⟨rfl, .inl rfl, ?_⟩
      simp [Starts, Token.isPunctuation, Token.isOperator, hk]

end Forms

end RuleLang.Parser
