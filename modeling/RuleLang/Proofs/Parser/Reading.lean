import RuleLang.Expr.Parser

/-!
# What the readers read

`Reads r a rest` says that a reader returned `a` and left `rest`. Each reader has one statement of when it reads
what, from the reads of the readers that it is made of; nothing after this file opens a reader again.
-/

namespace RuleLang.Parser

variable {α β : Type} {n : Nat} {rest ts : List Token}

/-- The outcome of a reader is a value and the tokens left. -/
def Reads (r : Except SyntaxError (Parsed α n)) (a : α) (rest : List Token) : Prop :=
  ∃ h, r = .ok ⟨a, rest, h⟩

theorem Reads.length_lt {r : Except SyntaxError (Parsed α n)} {a : α} (h : Reads r a rest) : rest.length < n :=
  h.1

theorem Reads.congr {bound : List Token → Nat} {read : (l : List Token) → Except SyntaxError (Parsed α (bound l))}
    {a : α} {l l' : List Token} (h : Reads (read l) a rest) (hl : l = l') : Reads (read l') a rest :=
  hl ▸ h

@[simp]
theorem reads_ok {a b : α} {l : List Token} {h : l.length < n} :
    Reads (.ok ⟨b, l, h⟩) a rest ↔ b = a ∧ l = rest := by
  constructor
  · rintro ⟨_, he⟩
    cases he
    exact ⟨rfl, rfl⟩
  · rintro ⟨rfl, rfl⟩
    exact ⟨h, rfl⟩

@[simp]
theorem reads_widen {a : α} {m : Nat} {p : Parsed α m} {h : m ≤ n} :
    Reads (.ok (p.widen h)) a rest ↔ p.value = a ∧ p.rest = rest :=
  reads_ok

@[simp]
theorem reads_error {a : α} {e : SyntaxError} : ¬Reads (.error e : Except SyntaxError (Parsed α n)) a rest := by
  rintro ⟨_, he⟩
  cases he

/-- A reader after another reads from what the other left. -/
theorem reads_bind {m : Nat} {r : Except SyntaxError (Parsed α m)} {f : Parsed α m → Except SyntaxError (Parsed β n)}
    {b : β} : Reads (r >>= f) b rest ↔ ∃ a mid h, r = .ok ⟨a, mid, h⟩ ∧ Reads (f ⟨a, mid, h⟩) b rest := by
  cases r with
  | error e => simp [bind, Except.bind]
  | ok p =>
    obtain ⟨a, mid, h⟩ := p
    constructor
    · intro hr
      exact ⟨a, mid, h, rfl, hr⟩
    · rintro ⟨_, _, _, he, hr⟩
      cases he
      exact hr

@[simp]
theorem reads_take_nil {stop : Nat} {accepts : Token → Bool} {fault : SyntaxFault} {u : Unit} :
    ¬Reads (take stop accepts fault []) u rest := by
  simp [take, fail]

@[simp]
theorem reads_take_cons {stop : Nat} {accepts : Token → Bool} {fault : SyntaxFault} {u : Unit} {t : Token} :
    Reads (take stop accepts fault (t :: ts)) u rest ↔ accepts t ∧ ts = rest := by
  by_cases h : accepts t <;> simp [take, fail, h]

theorem reads_take {stop : Nat} {accepts : Token → Bool} {fault : SyntaxFault} {u : Unit} :
    Reads (take stop accepts fault ts) u rest ↔ ∃ t, ts = t :: rest ∧ accepts t := by
  cases ts with
  | nil => simp
  | cons t ts =>
    rw [reads_take_cons]
    constructor
    · rintro ⟨ht, rfl⟩
      exact ⟨t, rfl, ht⟩
    · rintro ⟨t', ht', ht⟩
      cases ht'
      exact ⟨ht, rfl⟩

section Operators

variable {operand : Parser Expr} {least : Nat} {left e : Expr} {t : Token} {op : BinaryOp}

theorem reads_climb :
    Reads (climb operand least ts) e rest ↔
      ∃ left mid, Reads (operand ts) left mid ∧ Reads (climbOn operand least left mid) e rest := by
  rw [climb, reads_bind]
  constructor
  · rintro ⟨left, mid, h, hleft, hr⟩
    obtain ⟨_, _, _, hon, hw⟩ := reads_bind.1 hr
    obtain ⟨rfl, rfl⟩ := reads_widen.1 hw
    exact ⟨left, mid, ⟨h, hleft⟩, _, hon⟩
  · rintro ⟨left, mid, ⟨h, hleft⟩, _, hon⟩
    exact ⟨left, mid, h, hleft, reads_bind.2 ⟨_, _, _, hon, reads_widen.2 ⟨rfl, rfl⟩⟩⟩

@[simp]
theorem reads_climbOn_nil : Reads (climbOn operand least left []) e rest ↔ left = e ∧ [] = rest := by
  rw [climbOn]
  exact reads_ok

/-- Climbing ends before a token that is no operator, or one that binds too loosely. -/
theorem reads_climbOn_stop (h : ∀ op, operator? t = some op → op.precedence < least) :
    Reads (climbOn operand least left (t :: ts)) e rest ↔ left = e ∧ t :: ts = rest := by
  rw [climbOn]
  cases ht : operator? t with
  | none => exact reads_ok
  | some op =>
    simp only [h op ht, ↓reduceIte]
    exact reads_ok

/-- Climbing goes on with an operator that binds tightly enough. -/
theorem reads_climbOn_operator (ht : operator? t = some op) (hop : least ≤ op.precedence) :
    Reads (climbOn operand least left (t :: ts)) e rest ↔
      ∃ right mid, Reads (climb operand (op.precedence + 1) ts) right mid ∧
        Reads (climbOn operand least (.binary op left right) mid) e rest := by
  rw [climbOn]
  simp only [ht, Nat.not_lt.2 hop, ↓reduceIte]
  rw [reads_bind]
  constructor
  · rintro ⟨right, mid, h, hright, hr⟩
    obtain ⟨_, _, _, hon, hw⟩ := reads_bind.1 hr
    obtain ⟨rfl, rfl⟩ := reads_widen.1 hw
    exact ⟨right, mid, ⟨h, hright⟩, _, hon⟩
  · rintro ⟨right, mid, ⟨h, hright⟩, _, hon⟩
    exact ⟨right, mid, h, hright, reads_bind.2 ⟨_, _, _, hon, reads_widen.2 ⟨rfl, rfl⟩⟩⟩

end Operators

section Forms

variable {stop : Nat} {condition whole operand : Parser Expr} {e : Expr} {t : Token}

/-- An expression is a ternary, or its condition where no question mark follows. -/
theorem reads_ternary :
    Reads (ternary stop condition whole ts) e rest ↔
      (Reads (condition ts) e rest ∧ ∀ t ∈ rest.head?, t.isOperator "?" = false) ∨
      ∃ c question ys yes colon ns no, Reads (condition ts) c (question :: ys) ∧ question.isOperator "?" ∧
        Reads (whole ys) yes (colon :: ns) ∧ colon.isOperator ":" ∧ Reads (whole ns) no rest ∧
        e = .ternary c yes no := by
  rw [ternary, reads_bind]
  constructor
  · rintro ⟨c, mid, h, hc, hr⟩
    cases mid with
    | nil =>
      obtain ⟨rfl, rfl⟩ := reads_ok.1 hr
      exact .inl ⟨⟨h, hc⟩, by simp⟩
    | cons t mid =>
      by_cases ht : t.isOperator "?"
      · simp only [ht, ↓reduceIte] at hr
        obtain ⟨yes, r₁, h₁, hyes, hr⟩ := reads_bind.1 hr
        obtain ⟨_, r₂, h₂, hcolon, hr⟩ := reads_bind.1 hr
        obtain ⟨no, r₃, h₃, hno, hr⟩ := reads_bind.1 hr
        obtain ⟨rfl, rfl⟩ := reads_ok.1 hr
        obtain ⟨colon, rfl, hco⟩ := reads_take.1 ⟨h₂, hcolon⟩
        exact .inr ⟨c, t, mid, yes, colon, r₂, no, ⟨h, hc⟩, ht, ⟨h₁, hyes⟩, hco, ⟨h₃, hno⟩, rfl⟩
      · simp only [ht] at hr
        obtain ⟨rfl, rfl⟩ := reads_ok.1 hr
        exact .inl ⟨⟨h, hc⟩, by simpa using ht⟩
  · rintro (⟨⟨h, hc⟩, ht⟩ | ⟨c, t, mid, yes, colon, r₂, no, ⟨h, hc⟩, ht, ⟨h₁, hyes⟩, hco, ⟨h₃, hno⟩, rfl⟩)
    · refine ⟨e, rest, h, hc, ?_⟩
      cases rest with
      | nil => exact reads_ok.2 ⟨rfl, rfl⟩
      | cons t rest =>
        have ht : t.isOperator "?" = false := ht t rfl
        simp [ht]
    · refine ⟨c, t :: mid, h, hc, ?_⟩
      obtain ⟨h₂, hcolon⟩ : Reads (take stop (·.isOperator ":") .missingColon (colon :: r₂)) () r₂ :=
        reads_take.2 ⟨colon, rfl, hco⟩
      simp only [ht, ↓reduceIte]
      exact reads_bind.2 ⟨_, _, _, hyes, reads_bind.2 ⟨_, _, _, hcolon, reads_bind.2 ⟨_, _, _, hno,
        reads_ok.2 ⟨rfl, rfl⟩⟩⟩⟩

/-- Arguments are one expression before the closing parenthesis, or one before a comma and further arguments. -/
theorem reads_argumentList {es : List Expr} :
    Reads (argumentList stop whole ts) es rest ↔
      ∃ e t mid, Reads (whole ts) e (t :: mid) ∧
        ((t.isPunctuation "," ∧ ∃ more, Reads (argumentList stop whole mid) more rest ∧ es = e :: more) ∨
          (t.isPunctuation ")" ∧ es = [e] ∧ rest = mid)) := by
  rw [argumentList, reads_bind]
  constructor
  · rintro ⟨e, mid, h, he, hr⟩
    cases mid with
    | nil => exact absurd hr reads_error
    | cons t mid =>
      refine ⟨e, t, mid, ⟨h, he⟩, ?_⟩
      by_cases hc : t.isPunctuation ","
      · simp only [hc, ↓reduceIte] at hr
        obtain ⟨more, r₁, h₁, hmore, hr⟩ := reads_bind.1 hr
        obtain ⟨rfl, rfl⟩ := reads_ok.1 hr
        exact .inl ⟨hc, more, ⟨h₁, hmore⟩, rfl⟩
      · by_cases hp : t.isPunctuation ")"
        · simp only [hc, hp, ↓reduceIte] at hr
          obtain ⟨rfl, rfl⟩ := reads_ok.1 hr
          exact .inr ⟨hp, rfl, rfl⟩
        · simp only [hc, hp] at hr
          exact absurd hr reads_error
  · rintro ⟨e, t, mid, ⟨h, he⟩, ⟨hc, more, ⟨h₁, hmore⟩, rfl⟩ | ⟨hp, rfl, rfl⟩⟩
    · refine ⟨e, t :: mid, h, he, ?_⟩
      simp only [hc, ↓reduceIte]
      exact reads_bind.2 ⟨_, _, _, hmore, reads_ok.2 ⟨rfl, rfl⟩⟩
    · have hc := Token.isPunctuation_ne "," hp (by decide)
      refine ⟨e, t :: rest, h, he, ?_⟩
      simp [hc, hp]

/-- The arguments of a call are none, or a list of arguments. -/
theorem reads_arguments {es : List Expr} :
    Reads (arguments stop whole ts) es rest ↔
      (∃ t, ts = t :: rest ∧ t.isPunctuation ")" ∧ es = []) ∨
      ((∀ t ∈ ts.head?, t.isPunctuation ")" = false) ∧ Reads (argumentList stop whole ts) es rest) := by
  cases ts with
  | nil => simp [arguments]
  | cons t ts =>
    by_cases h : t.isPunctuation ")"
    · simp only [arguments, h, ↓reduceIte, reads_ok]
      constructor
      · rintro ⟨rfl, rfl⟩
        exact .inl ⟨t, rfl, h, rfl⟩
      · rintro (⟨t', ht, -, rfl⟩ | ⟨ht, -⟩)
        · cases ht
          exact ⟨rfl, rfl⟩
        · simp [ht t rfl] at h
    · simp only [arguments, h]
      constructor
      · intro hr
        exact .inr ⟨by simpa using h, hr⟩
      · rintro (⟨t', ht, hp, -⟩ | ⟨-, hr⟩)
        · cases ht
          exact absurd hp h
        · exact hr

section Paths

variable {root : String} {segments : List Segment}

theorem reads_path_end (h : continuesPath ts = false) :
    Reads (path stop whole root segments ts) e rest ↔ .reference root segments = e ∧ ts = rest := by
  cases ts with
  | nil =>
    rw [path]
    exact reads_ok
  | cons t ts =>
    simp only [continuesPath, Bool.or_eq_false_iff] at h
    obtain ⟨⟨hdot, hbracket⟩, hopening⟩ := h
    rw [path.eq_def]
    simp [hdot, hbracket, hopening]

theorem reads_path_call (h : t.isPunctuation "(") :
    Reads (path stop whole root segments (t :: ts)) e rest ↔
      ∃ args, Reads (arguments stop whole ts) args rest ∧ e = .call (pathText root segments) args := by
  rw [path.eq_def]
  simp only [h, ↓reduceIte]
  rw [reads_bind]
  constructor
  · rintro ⟨args, mid, hm, hargs, hr⟩
    obtain ⟨rfl, rfl⟩ := reads_ok.1 hr
    exact ⟨args, ⟨hm, hargs⟩, rfl⟩
  · rintro ⟨args, ⟨hm, hargs⟩, rfl⟩
    exact ⟨args, rest, hm, hargs, reads_ok.2 ⟨rfl, rfl⟩⟩

theorem reads_path_property (h : t.isPunctuation ".") :
    Reads (path stop whole root segments (t :: ts)) e rest ↔
      ∃ name mid, ts = name :: mid ∧ name.kind = .identifier ∧
        Reads (path stop whole root (segments ++ [.property name.text]) mid) e rest := by
  have ho := Token.isPunctuation_ne "(" h (by decide)
  rw [path.eq_def]
  simp only [h, ho, ↓reduceIte, Bool.false_eq_true]
  cases ts with
  | nil => simp [fail]
  | cons name ts =>
    by_cases hn : name.kind = .identifier
    · simp only [hn, ↓reduceIte]
      rw [reads_bind]
      constructor
      · rintro ⟨longer, mid, hm, hpath, hr⟩
        obtain ⟨rfl, rfl⟩ := reads_widen.1 hr
        exact ⟨name, ts, rfl, hn, _, hpath⟩
      · rintro ⟨_, _, hts, -, hm, hpath⟩
        cases hts
        exact ⟨e, rest, hm, hpath, reads_widen.2 ⟨rfl, rfl⟩⟩
    · simp only [hn, ↓reduceIte]
      constructor
      · intro hr
        exact absurd hr reads_error
      · rintro ⟨_, _, hts, hn', -⟩
        cases hts
        exact absurd hn' hn

theorem reads_path_index (h : t.isPunctuation "[") :
    Reads (path stop whole root segments (t :: ts)) e rest ↔
      ∃ index close mid, Reads (whole ts) index (close :: mid) ∧ close.isPunctuation "]" ∧
        Reads (path stop whole root (segments ++ [.index index]) mid) e rest := by
  have ho := Token.isPunctuation_ne "(" h (by decide)
  have hd := Token.isPunctuation_ne "." h (by decide)
  rw [path.eq_def]
  simp only [h, ho, hd, ↓reduceIte, Bool.false_eq_true]
  rw [reads_bind]
  constructor
  · rintro ⟨index, mid, hm, hindex, hr⟩
    obtain ⟨_, after, ha, hclose, hr⟩ := reads_bind.1 hr
    obtain ⟨longer, _, hl, hpath, hr⟩ := reads_bind.1 hr
    obtain ⟨rfl, rfl⟩ := reads_widen.1 hr
    obtain ⟨close, rfl, hc⟩ := reads_take.1 ⟨ha, hclose⟩
    exact ⟨index, close, after, ⟨hm, hindex⟩, hc, _, hpath⟩
  · rintro ⟨index, close, mid, ⟨hm, hindex⟩, hc, hl, hpath⟩
    obtain ⟨ha, hclose⟩ : Reads (punctuation stop "]" (close :: mid)) () mid :=
      reads_take.2 ⟨close, rfl, hc⟩
    exact ⟨index, close :: mid, hm, hindex, reads_bind.2 ⟨_, _, _, hclose, reads_bind.2 ⟨_, _, _, hpath,
      reads_widen.2 ⟨rfl, rfl⟩⟩⟩⟩

end Paths

section Names

variable {name : String}

/-- A name before an arrow is the parameter of a lambda. -/
theorem reads_named_lambda (h : t.isOperator "=>") :
    Reads (named stop whole name (t :: ts)) e rest ↔
      ∃ body, Reads (whole ts) body rest ∧ e = .lambda name body := by
  rw [named.eq_def]
  simp only [h, ↓reduceIte]
  rw [reads_bind]
  constructor
  · rintro ⟨body, mid, hm, hbody, hr⟩
    obtain ⟨rfl, rfl⟩ := reads_ok.1 hr
    exact ⟨body, ⟨hm, hbody⟩, rfl⟩
  · rintro ⟨body, ⟨hm, hbody⟩, rfl⟩
    exact ⟨body, rest, hm, hbody, reads_ok.2 ⟨rfl, rfl⟩⟩

/-- A truth value by its name, unless a path or an arrow follows it. -/
theorem reads_named_truth {x : Float} (hname : booleanName? name = some x)
    (harrow : ∀ t ∈ ts.head?, t.isOperator "=>" = false) (hpath : continuesPath ts = false) :
    Reads (named stop whole name ts) e rest ↔ .number x = e ∧ ts = rest := by
  cases ts with
  | nil => simp [named, hname]
  | cons t ts =>
    have ht : t.isOperator "=>" = false := harrow t rfl
    simp [named, hname, ht, hpath]

theorem reads_named_path (hname : booleanName? name = none ∨ continuesPath ts)
    (harrow : ∀ t ∈ ts.head?, t.isOperator "=>" = false) :
    Reads (named stop whole name ts) e rest ↔ Reads (path stop whole name [] ts) e rest := by
  cases ts with
  | nil =>
    have hn : booleanName? name = none := hname.resolve_right (by simp [continuesPath])
    rw [named, path.eq_def]
    simp [hn]
  | cons t ts =>
    have ht : t.isOperator "=>" = false := harrow t rfl
    rcases hname with hn | hp
    · simp [named, hn, ht]
    · cases hn : booleanName? name <;> simp [named, hn, ht, hp]

end Names

section Primaries

theorem reads_primary_number (h : t.kind = .number) :
    Reads (primaryForm stop whole operand (t :: ts)) e rest ↔
      ∃ x, Number.read? t.text = some x ∧ e = .number x ∧ ts = rest := by
  cases hx : Number.read? t.text <;> simp [primaryForm, h, hx, eq_comm]

theorem reads_primary_string (h : t.kind = .string) :
    Reads (primaryForm stop whole operand (t :: ts)) e rest ↔ .string t.text = e ∧ ts = rest := by
  simp [primaryForm, h]

theorem reads_primary_name (h : t.kind = .identifier) :
    Reads (primaryForm stop whole operand (t :: ts)) e rest ↔ Reads (named stop whole t.text ts) e rest := by
  simp [primaryForm, h]

theorem reads_primary_parentheses (h : t.isPunctuation "(") :
    Reads (primaryForm stop whole operand (t :: ts)) e rest ↔
      ∃ close, Reads (whole ts) e (close :: rest) ∧ close.isPunctuation ")" := by
  obtain ⟨hk, ht⟩ := Token.isPunctuation_iff.1 h
  simp only [primaryForm, hk, ht, ↓reduceIte]
  rw [reads_bind]
  constructor
  · rintro ⟨inside, mid, hm, hinside, hr⟩
    obtain ⟨_, after, ha, hclose, hr⟩ := reads_bind.1 hr
    obtain ⟨rfl, rfl⟩ := reads_ok.1 hr
    obtain ⟨close, rfl, hc⟩ := reads_take.1 ⟨ha, hclose⟩
    exact ⟨close, ⟨hm, hinside⟩, hc⟩
  · rintro ⟨close, ⟨hm, hinside⟩, hc⟩
    obtain ⟨ha, hclose⟩ : Reads (punctuation stop ")" (close :: rest)) () rest :=
      reads_take.2 ⟨close, rfl, hc⟩
    exact ⟨e, close :: rest, hm, hinside, reads_bind.2 ⟨_, _, _, hclose, reads_ok.2 ⟨rfl, rfl⟩⟩⟩

theorem reads_primary_unary {op : UnaryOp} (h : t.isOperator op.symbol) :
    Reads (primaryForm stop whole operand (t :: ts)) e rest ↔
      ∃ inner, Reads (operand ts) inner rest ∧ e = .unary op inner := by
  obtain ⟨hk, ht⟩ := Token.isOperator_iff.1 h
  have hsign : (if t.text = "-" then some UnaryOp.neg else if t.text = "!" then some UnaryOp.not else none) =
      some op := by
    rw [ht]
    cases op <;> decide
  simp only [primaryForm, hk, hsign]
  rw [reads_bind]
  constructor
  · rintro ⟨inner, mid, hm, hinner, hr⟩
    obtain ⟨rfl, rfl⟩ := reads_ok.1 hr
    exact ⟨inner, ⟨hm, hinner⟩, rfl⟩
  · rintro ⟨inner, ⟨hm, hinner⟩, rfl⟩
    exact ⟨inner, rest, hm, hinner, reads_ok.2 ⟨rfl, rfl⟩⟩

theorem starts_of_reads_primary (h : Reads (primaryForm stop whole operand ts) e rest) :
    ∃ t ts', ts = t :: ts' ∧ (t.kind = .number ∨ t.kind = .string ∨ t.kind = .identifier ∨
      t.isPunctuation "(" ∨ ∃ op : UnaryOp, t.isOperator op.symbol) := by
  cases ts with
  | nil => exact absurd h reads_error
  | cons t ts =>
    refine ⟨t, ts, rfl, ?_⟩
    cases hk : t.kind with
    | number => exact .inl rfl
    | string => exact .inr (.inl rfl)
    | identifier => exact .inr (.inr (.inl rfl))
    | punctuation =>
      by_cases ht : t.text = "("
      · exact .inr (.inr (.inr (.inl (Token.isPunctuation_iff.2 ⟨hk, ht⟩))))
      · simp [primaryForm, hk, ht] at h
    | operator =>
      by_cases hminus : t.text = "-"
      · exact .inr (.inr (.inr (.inr ⟨.neg, Token.isOperator_iff.2 ⟨hk, hminus⟩⟩)))
      · by_cases hnot : t.text = "!"
        · exact .inr (.inr (.inr (.inr ⟨.not, Token.isOperator_iff.2 ⟨hk, hnot⟩⟩)))
        · simp [primaryForm, hk, hminus, hnot] at h
    | endOfInput => simp [primaryForm, hk] at h

end Primaries

end Forms

end RuleLang.Parser
