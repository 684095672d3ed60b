import RuleLang.Expr.Basic
import RuleLang.Proofs.Number.Literal
import RuleLang.Text.Quoted
import RuleLang.Token.Lexer

/-!
# Characters that spell tokens

`Spells after cs P` says that the characters `cs` are read as tokens with the property `P`, wherever they stand,
as long as `after` holds for the characters behind them. Every kind of token has its own way to be written, and
its own condition on what may follow: the lexer takes the longest lexeme that it can.
-/

namespace RuleLang

/-- Nothing comes next, or a character of the given sort. -/
def Before (p : Char → Bool) (rest : List Char) : Prop :=
  ∀ c ∈ rest.head?, p c = true

theorem Before.nil {p : Char → Bool} : Before p [] := nofun

theorem before_cons {p : Char → Bool} {c : Char} {cs : List Char} : Before p (c :: cs) ↔ p c = true := by
  simp [Before]

theorem Before.mono {p q : Char → Bool} {rest : List Char} (h : Before p rest) (hpq : ∀ c, p c → q c) :
    Before q rest :=
  fun c hc => hpq c (h c hc)

section Tokens

variable {strict : Bool} {position : Nat} {c : Char} {cs : List Char} {l : Lexeme}

theorem tokensFrom_blank (hc : isSpace c) :
    tokensFrom strict position (c :: cs) = tokensFrom strict (position + 1) cs := by
  rw [tokensFrom, if_pos hc]

theorem tokensFrom_lexeme (position : Nat) (hc : isSpace c = false) (hl : Lexeme.ofChars strict c cs = .ok l) :
    tokensFrom strict position (c :: cs) =
      (⟨l.kind, String.ofList l.content, position⟩ :: ·) <$>
        tokensFrom strict (position + l.written.length) l.rest := by
  rw [tokensFrom, if_neg (by simp [hc])]
  split
  · next hfault =>
    rw [hl] at hfault
    cases hfault
  · next l' hl' =>
    rw [hl] at hl'
    cases hl'
    rfl

theorem tokensFrom_fault {fault : LexicalFault} (hc : isSpace c = false)
    (hfault : Lexeme.ofChars strict c cs = .error fault) :
    tokensFrom strict position (c :: cs) = .error ⟨fault, position⟩ := by
  rw [tokensFrom, if_neg (by simp [hc])]
  split
  · next hfault' =>
    rw [hfault] at hfault'
    cases hfault'
    rfl
  · next hl =>
    rw [hfault] at hl
    cases hl

/-- A text is empty, or it starts with a blank, with what is no lexeme, or with a lexeme; what is behind a lexeme is
shorter. -/
theorem lexing_induction {motive : List Char → Prop} (strict : Bool) (nil : motive [])
    (blank : ∀ {c cs}, isSpace c = true → motive cs → motive (c :: cs))
    (fault : ∀ {c cs reason}, isSpace c = false → Lexeme.ofChars strict c cs = .error reason → motive (c :: cs))
    (lexeme : ∀ {c cs l}, isSpace c = false → Lexeme.ofChars strict c cs = .ok l → motive l.rest → motive (c :: cs))
    (cs : List Char) : motive cs := by
  induction hn : cs.length using Nat.strongRecOn generalizing cs with
  | ind n ih =>
    subst hn
    cases cs with
    | nil => exact nil
    | cons c cs =>
      cases hc : isSpace c with
      | true => exact blank hc (ih cs.length (Nat.lt_succ_self _) cs rfl)
      | false =>
        cases hl : Lexeme.ofChars strict c cs with
        | error reason => exact fault hc hl
        | ok l => exact lexeme hc hl (ih l.rest.length (Lexeme.length_rest_ofChars hl) l.rest rfl)

/-- A text that has tokens is empty, or has a blank or a lexeme in front of a text that has tokens. -/
theorem tokensFrom_induction {motive : Nat → List Char → List Token → Prop}
    (nil : ∀ position, motive position [] [⟨.endOfInput, "", position⟩])
    (blank : ∀ {position c cs ts}, isSpace c = true → motive (position + 1) cs ts → motive position (c :: cs) ts)
    (lexeme : ∀ {position c cs l ts}, isSpace c = false → Lexeme.ofChars strict c cs = .ok l →
      motive (position + l.written.length) l.rest ts →
      motive position (c :: cs) (⟨l.kind, String.ofList l.content, position⟩ :: ts))
    {ts : List Token} (h : tokensFrom strict position cs = .ok ts) : motive position cs ts := by
  induction cs using lexing_induction strict generalizing position ts with
  | nil =>
    rw [tokensFrom] at h
    cases h
    exact nil position
  | blank hc ih =>
    rw [tokensFrom_blank hc] at h
    exact blank hc (ih h)
  | fault hc hl =>
    rw [tokensFrom_fault hc hl] at h
    cases h
  | @lexeme c cs l hc hl ih =>
    rw [tokensFrom_lexeme _ hc hl] at h
    cases hrest : tokensFrom strict (position + l.written.length) l.rest with
    | error e =>
      rw [hrest] at h
      cases h
    | ok following =>
      rw [hrest] at h
      cases h
      exact lexeme hc hl (ih hrest)

end Tokens

/-- Characters that are read as tokens with a property, if what follows is as required. -/
def Spells (after : List Char → Prop) (cs : List Char) (P : List Token → Prop) : Prop :=
  ∀ strict position rest, after rest → ∃ ts position', P ts ∧
    tokensFrom strict position (cs ++ rest) = (ts ++ ·) <$> tokensFrom strict position' rest

def IsToken (kind : TokenKind) (text : String) (ts : List Token) : Prop :=
  ∃ t : Token, ts = [t] ∧ t.kind = kind ∧ t.text = text

def IsOperator (symbol : String) (ts : List Token) : Prop :=
  ∃ t : Token, ts = [t] ∧ t.isOperator symbol

def IsPunctuation (mark : String) (ts : List Token) : Prop :=
  ∃ t : Token, ts = [t] ∧ t.isPunctuation mark

namespace Spells

variable {after after' : List Char → Prop} {cs ds : List Char} {P Q : List Token → Prop}

theorem mono (h : Spells after cs P) (hPQ : ∀ ts, P ts → Q ts) : Spells after cs Q := by
  intro strict position rest hrest
  obtain ⟨ts, position', hts, heq⟩ := h strict position rest hrest
  exact ⟨ts, position', hPQ ts hts, heq⟩

theorem weaken (h : Spells after cs P) (hafter : ∀ rest, after' rest → after rest) : Spells after' cs P :=
  fun strict position rest hrest => h strict position rest (hafter rest hrest)

theorem nil (h : P []) : Spells after [] P := by
  intro strict position rest _
  refine ⟨[], position, h, ?_⟩
  rw [List.nil_append]
  cases tokensFrom strict position rest <;> rfl

/-- A text behind another one spells its tokens behind those of the other. -/
theorem append (hcs : Spells after cs P) (hds : Spells after' ds Q) (h : ∀ rest, after' rest → after (ds ++ rest)) :
    Spells after' (cs ++ ds) fun ts => ∃ xs ys, ts = xs ++ ys ∧ P xs ∧ Q ys := by
  intro strict position rest hrest
  obtain ⟨xs, position', hxs, hx⟩ := hcs strict position (ds ++ rest) (h rest hrest)
  obtain ⟨ys, position'', hys, hy⟩ := hds strict position' rest hrest
  refine ⟨xs ++ ys, position'', ⟨xs, ys, rfl, hxs, hys⟩, ?_⟩
  rw [List.append_assoc, hx, hy]
  cases tokensFrom strict position'' rest with
  | error e => rfl
  | ok zs => exact congrArg Except.ok (List.append_assoc xs ys zs).symm

theorem space (h : Spells after cs P) : Spells after (' ' :: cs) P := by
  intro strict position rest hrest
  obtain ⟨ts, position', hts, heq⟩ := h strict (position + 1) rest hrest
  refine ⟨ts, position', hts, ?_⟩
  rw [List.cons_append, tokensFrom, if_pos (by decide), heq]

theorem lexeme {c : Char} {kind : TokenKind} {content : List Char} (hc : isSpace c = false)
    (h : ∀ strict rest, after rest → ∃ l, Lexeme.ofChars strict c (cs ++ rest) = .ok l ∧ l.kind = kind ∧
      l.content = content ∧ l.rest = rest) :
    Spells after (c :: cs) (IsToken kind (String.ofList content)) := by
  intro strict position rest hrest
  obtain ⟨l, hl, rfl, rfl, rfl⟩ := h strict rest hrest
  refine ⟨[⟨l.kind, String.ofList l.content, position⟩], position + l.written.length, ⟨_, rfl, rfl, rfl⟩, ?_⟩
  rw [List.cons_append, tokensFrom_lexeme _ hc hl]
  rfl

end Spells

section Characters

variable {c : Char}

theorem isDigit_iff : Number.isDigit c ↔ 48 ≤ c.toNat ∧ c.toNat ≤ 57 := by
  simp only [Number.isDigit, Bool.and_eq_true, decide_eq_true_eq, Char.le_def, UInt32.le_iff_toNat_le]
  rfl

theorem isIdentifierStart_iff :
    isIdentifierStart c ↔ (65 ≤ c.toNat ∧ c.toNat ≤ 90) ∨ (97 ≤ c.toNat ∧ c.toNat ≤ 122) ∨ c.toNat = 95 := by
  have hunderscore : c = '_' ↔ c.toNat = 95 := by
    rw [← Char.toNat_inj]
    rfl
  delta isIdentifierStart Char.isAlpha Char.isUpper Char.isLower
  simp only [Bool.or_eq_true, Bool.and_eq_true, decide_eq_true_eq, beq_iff_eq, hunderscore, ge_iff_le,
    UInt32.le_iff_toNat_le]
  rw [or_assoc]
  rfl

/-- The start of an identifier may stand in it, and starts nothing else. -/
theorem part_of_start (h : isIdentifierStart c) : isIdentifierPart c := by
  rcases Bool.or_eq_true_iff.1 h with ha | hu
  · simp [isIdentifierPart, Char.isAlphanum, ha]
  · simp [isIdentifierPart, hu]

/-- A character with another number is another character. -/
theorem ne_of_toNat {d : Char} (h : c.toNat ≠ d.toNat) : c ≠ d :=
  fun hcd => h (congrArg Char.toNat hcd)

theorem not_digit_of_start (h : isIdentifierStart c) : Number.isDigit c = false := by
  rw [Bool.eq_false_iff, ne_eq, isDigit_iff]
  have := isIdentifierStart_iff.1 h
  omega

theorem ne_of_start {d : Char} (h : isIdentifierStart c) (hd : isIdentifierStart d = false) : c ≠ d := by
  rintro rfl
  rw [h] at hd
  cases hd

theorem not_space_of_start (h : isIdentifierStart c) : isSpace c = false := by
  simp [isSpace, ne_of_start h (show isIdentifierStart ' ' = false by decide),
    ne_of_start h (show isIdentifierStart '\t' = false by decide),
    ne_of_start h (show isIdentifierStart '\r' = false by decide),
    ne_of_start h (show isIdentifierStart '\n' = false by decide)]

end Characters

section Lexemes

/-- A word: the texts that are read as one identifier. -/
def IsIdentifier (s : String) : Prop :=
  ∃ c cs, s.toList = c :: cs ∧ isIdentifierStart c ∧ ∀ d ∈ cs, isIdentifierPart d

theorem IsIdentifier.before {s : String} {p : Char → Bool} (h : IsIdentifier s) (hp : ∀ c, isIdentifierStart c → p c)
    (rest : List Char) : Before p (s.toList ++ rest) := by
  obtain ⟨c, cs, hs, hc, -⟩ := h
  rw [hs]
  exact before_cons.2 (hp c hc)

/-- What may follow an identifier. -/
def endsIdentifier (c : Char) : Bool := !isIdentifierPart c

def endsNumeral (c : Char) : Bool := !Number.isDigit c && c != '.'

theorem takeWhile_append_stop {p : Char → Bool} {cs rest : List Char} (hcs : ∀ c ∈ cs, p c)
    (hrest : Before (!p ·) rest) : (cs ++ rest).takeWhile p = cs := by
  rw [List.takeWhile_append_of_pos hcs]
  cases rest with
  | nil => simp
  | cons c rest =>
    have hc := before_cons.1 hrest
    simp only [Bool.not_eq_true'] at hc
    simp [hc]

theorem dropWhile_append_stop {p : Char → Bool} {cs rest : List Char} (hcs : ∀ c ∈ cs, p c)
    (hrest : Before (!p ·) rest) : (cs ++ rest).dropWhile p = rest := by
  rw [List.dropWhile_append_of_pos hcs]
  cases rest with
  | nil => simp
  | cons c rest =>
    have hc := before_cons.1 hrest
    simp only [Bool.not_eq_true'] at hc
    simp [hc]

theorem IsIdentifier.spells {s : String} (h : IsIdentifier s) :
    Spells (Before endsIdentifier) s.toList (IsToken .identifier s) := by
  obtain ⟨c, cs, hs, hc, hcs⟩ := h
  have hpart : ∀ d ∈ c :: cs, isIdentifierPart d := by
    intro d hd
    rcases List.mem_cons.1 hd with rfl | hd
    · exact part_of_start hc
    · exact hcs d hd
  have hspells : Spells (Before endsIdentifier) (c :: cs) (IsToken .identifier (String.ofList (c :: cs))) := by
    refine Spells.lexeme (not_space_of_start hc) fun strict rest hrest => ?_
    refine ⟨Lexeme.identifier (c :: (cs ++ rest)), ?_, rfl, takeWhile_append_stop hpart hrest,
      dropWhile_append_stop hpart hrest⟩
    have hdot := ne_of_start hc (show isIdentifierStart '.' = false by decide)
    have hnumber : Lexeme.startsNumber (c :: (cs ++ rest)) = false := by
      unfold Lexeme.startsNumber
      split
      · next heq => exact absurd (List.cons.inj heq).1 hdot
      · next heq => exact (List.cons.inj heq).1 ▸ not_digit_of_start hc
      · rfl
    have hquote : ¬(c = '"' ∨ c = '\x27') := by
      rintro (h | h)
      · exact ne_of_start hc (by decide) h
      · exact ne_of_start hc (by decide) h
    rw [Lexeme.ofChars, if_neg (by simp [hnumber]), if_neg hquote, if_pos hc]
  rw [hs, ← String.ofList_toList (s := s), hs]
  exact hspells

theorem Number.IsNumeral.digit_head {c : Char} {cs : List Char} (h : Number.IsNumeral (c :: cs)) :
    Number.isDigit c := by
  obtain ⟨whole, fraction, heq, hne, hwhole, -⟩ := h
  cases whole with
  | nil => exact absurd rfl hne
  | cons d ds =>
    rw [(List.cons.inj heq).1]
    exact hwhole d (List.mem_cons_self ..)

theorem Number.IsNumeral.before {cs : List Char} {p : Char → Bool} (h : Number.IsNumeral cs)
    (hp : ∀ c, Number.isDigit c → p c) (rest : List Char) : Before p (cs ++ rest) := by
  cases cs with
  | nil =>
    obtain ⟨whole, fraction, heq, hne, -⟩ := h
    exact absurd (List.append_eq_nil_iff.1 heq.symm).1 hne
  | cons c cs => exact before_cons.2 (hp c h.digit_head)

theorem Number.IsNumeral.number {cs rest : List Char} (h : Number.IsNumeral cs) (hrest : Before endsNumeral rest) :
    Lexeme.number (cs ++ rest) = .plain .number cs rest := by
  have hdigit : Before (!Number.isDigit ·) rest := hrest.mono fun c hc => by simp_all [endsNumeral]
  obtain ⟨whole, fraction, rfl, -, hwhole, rfl | ⟨ds, rfl, hds⟩⟩ := h
  · rw [List.append_nil, Lexeme.number, takeWhile_append_stop hwhole hdigit, dropWhile_append_stop hwhole hdigit]
    split
    · next heq =>
      have hdot := hrest '.' rfl
      cases hdot
    · rfl
  · have hstop : Before (!Number.isDigit ·) ('.' :: (ds ++ rest)) := before_cons.2 rfl
    rw [List.append_assoc, List.cons_append, Lexeme.number, takeWhile_append_stop hwhole hstop,
      dropWhile_append_stop hwhole hstop]
    simp only [takeWhile_append_stop hds hdigit, dropWhile_append_stop hds hdigit]

theorem Number.IsNumeral.spells {cs : List Char} (h : Number.IsNumeral cs) :
    Spells (Before endsNumeral) cs (IsToken .number (String.ofList cs)) := by
  cases cs with
  | nil =>
    obtain ⟨whole, fraction, heq, hne, -⟩ := h
    exact absurd (List.append_eq_nil_iff.1 heq.symm).1 hne
  | cons c cs =>
    have hc := h.digit_head
    have hrange := isDigit_iff.1 hc
    have hspace : isSpace c = false := by
      have hs : c ≠ ' ' := ne_of_toNat (by change c.toNat ≠ 32; omega)
      have ht : c ≠ '\t' := ne_of_toNat (by change c.toNat ≠ 9; omega)
      have hr : c ≠ '\r' := ne_of_toNat (by change c.toNat ≠ 13; omega)
      have hn : c ≠ '\n' := ne_of_toNat (by change c.toNat ≠ 10; omega)
      simp [isSpace, hs, ht, hr, hn]
    refine Spells.lexeme hspace fun strict rest hrest => ⟨Lexeme.number (c :: (cs ++ rest)), ?_, ?_⟩
    · have hnumber : Lexeme.startsNumber (c :: (cs ++ rest)) := by
        have hdot : c ≠ '.' := ne_of_toNat (by change c.toNat ≠ 46; omega)
        unfold Lexeme.startsNumber
        split
        · next heq => exact absurd (List.cons.inj heq).1 hdot
        · next heq => exact (List.cons.inj heq).1 ▸ hc
        · next heq => cases heq
      rw [Lexeme.ofChars, if_pos hnumber]
    · have hnumber := h.number hrest
      rw [List.cons_append] at hnumber
      rw [hnumber]
      exact ⟨rfl, rfl, rfl⟩

/-- The inside of a quoted text is read back without its escapes. -/
theorem stringBody_escapeChars (cs rest : List Char) :
    Lexeme.stringBody '"' (Text.escapeChars cs ++ '"' :: rest) = ⟨cs, Text.escapeChars cs ++ ['"'], true, rest⟩ := by
  induction cs with
  | nil =>
    rw [Text.escapeChars, List.nil_append, Lexeme.stringBody.eq_def]
    rfl
  | cons c cs ih =>
    rw [Text.escapeChars]
    split
    · rw [List.cons_append, List.cons_append, Lexeme.stringBody.eq_def]
      simp only [↓reduceIte, ih]
      rfl
    · next hc =>
      rw [not_or] at hc
      rw [List.cons_append, Lexeme.stringBody.eq_def]
      simp only [if_neg hc.2, if_neg hc.1, ih]
      rfl

/-- A quoted text is read as one token wherever it stands, and nothing of it is left over. -/
theorem tokensFrom_quote (strict : Bool) (position : Nat) (s : String) (rest : List Char) :
    tokensFrom strict position ((Text.quote s).toList ++ rest) =
      ([⟨.string, s, position⟩] ++ ·) <$> tokensFrom strict (position + (Text.quote s).length) rest := by
  have hbody := stringBody_escapeChars s.toList rest
  have hok : Lexeme.ofChars strict '"' (Text.escapeChars s.toList ++ '"' :: rest) =
      .ok ⟨.string, s.toList, (Text.quote s).toList, rest⟩ := by
    rw [Lexeme.ofChars, if_neg (show ¬Lexeme.startsNumber ('"' :: _) from Bool.false_ne_true), if_pos (.inl rfl),
      Lexeme.string, hbody, Text.quote, String.toList_ofList]
    simp
  have hchars : (Text.quote s).toList ++ rest = '"' :: (Text.escapeChars s.toList ++ '"' :: rest) := by
    rw [Text.quote, String.toList_ofList, List.append_assoc]
    rfl
  rw [hchars, tokensFrom_lexeme _ (by decide) hok, String.length_toList, String.ofList_toList]
  rfl

theorem spells_quote (s : String) : Spells (fun _ => True) (Text.quote s).toList (IsToken .string s) :=
  fun strict position rest _ => ⟨_, _, ⟨_, rfl, rfl, rfl⟩, tokensFrom_quote strict position s rest⟩

end Lexemes

section Marks

variable {after : List Char → Prop} {c : Char} {cs : List Char}

/-- Characters that the tables of operators and punctuation marks know, and nothing else. -/
theorem Spells.mark {kind : TokenKind} (hc : isSpace c = false) (hstart : isIdentifierStart c = false)
    (hquote : ¬(c = '"' ∨ c = '\x27'))
    (h : ∀ rest, after rest → Lexeme.startsNumber (c :: (cs ++ rest)) = false ∧
      (Lexeme.inTable .operator operatorTable (c :: (cs ++ rest))).or
        (Lexeme.inTable .punctuation punctuationTable (c :: (cs ++ rest))) = some (.plain kind (c :: cs) rest)) :
    Spells after (c :: cs) (IsToken kind (String.ofList (c :: cs))) := by
  refine Spells.lexeme hc fun strict rest hrest => ⟨.plain kind (c :: cs) rest, ?_, rfl, rfl, rfl⟩
  obtain ⟨hnumber, htable⟩ := h rest hrest
  rw [Lexeme.ofChars, if_neg (by simp [hnumber]), if_neg hquote, if_neg (by simp [hstart]), htable]

theorem Spells.operator (hc : isSpace c = false) (hstart : isIdentifierStart c = false)
    (hquote : ¬(c = '"' ∨ c = '\x27'))
    (h : ∀ rest, after rest → Lexeme.startsNumber (c :: (cs ++ rest)) = false ∧
      (Lexeme.inTable .operator operatorTable (c :: (cs ++ rest))).or
        (Lexeme.inTable .punctuation punctuationTable (c :: (cs ++ rest))) =
          some (.plain .operator (c :: cs) rest)) :
    Spells after (c :: cs) (IsOperator (String.ofList (c :: cs))) := by
  refine (Spells.mark hc hstart hquote h).mono ?_
  rintro _ ⟨t, rfl, hk, ht⟩
  exact ⟨t, rfl, Token.isOperator_iff.2 ⟨hk, ht⟩⟩

theorem Spells.punctuation (hc : isSpace c = false) (hstart : isIdentifierStart c = false)
    (hquote : ¬(c = '"' ∨ c = '\x27'))
    (h : ∀ rest, after rest → Lexeme.startsNumber (c :: (cs ++ rest)) = false ∧
      (Lexeme.inTable .operator operatorTable (c :: (cs ++ rest))).or
        (Lexeme.inTable .punctuation punctuationTable (c :: (cs ++ rest))) =
          some (.plain .punctuation (c :: cs) rest)) :
    Spells after (c :: cs) (IsPunctuation (String.ofList (c :: cs))) := by
  refine (Spells.mark hc hstart hquote h).mono ?_
  rintro _ ⟨t, rfl, hk, ht⟩
  exact ⟨t, rfl, Token.isPunctuation_iff.2 ⟨hk, ht⟩⟩

theorem spells_arrow : Spells (fun _ => True) ['=', '>'] (IsOperator "=>") :=
  Spells.operator (by decide) (by decide) (by decide) fun _ _ => ⟨rfl, rfl⟩

theorem spells_question : Spells (fun _ => True) ['?'] (IsOperator "?") :=
  Spells.operator (by decide) (by decide) (by decide) fun _ _ => ⟨rfl, rfl⟩

theorem spells_colon : Spells (fun _ => True) [':'] (IsOperator ":") :=
  Spells.operator (by decide) (by decide) (by decide) fun _ _ => ⟨rfl, rfl⟩

theorem spells_neg : Spells (fun _ => True) ['-'] (IsOperator "-") :=
  Spells.operator (by decide) (by decide) (by decide) fun _ _ => ⟨rfl, rfl⟩

theorem spells_not : Spells (Before (· != '=')) ['!'] (IsOperator "!") := by
  refine Spells.operator (by decide) (by decide) (by decide) fun rest hrest => ⟨rfl, ?_⟩
  cases rest with
  | nil => rfl
  | cons d rest =>
    have hd : ('=' == d) = false := beq_eq_false_iff_ne.2 (Ne.symm (bne_iff_ne.1 (hrest d rfl)))
    simp [Lexeme.inTable, operatorTable, List.isPrefixOf, hd, Lexeme.plain, String.length]

theorem spells_sign (op : UnaryOp) : Spells (Before (· != '=')) op.symbol.toList (IsOperator op.symbol) := by
  cases op with
  | neg => exact spells_neg.weaken fun _ _ => trivial
  | not => exact spells_not

/-- A binary operator before a space spells its token. -/
theorem spells_operator (op : BinaryOp) :
    Spells (Before (· == ' ')) op.symbol.toList (IsOperator op.symbol) := by
  have hspace : ∀ rest, Before (· == ' ') rest → rest = [] ∨ ∃ more, rest = ' ' :: more := by
    intro rest hrest
    cases rest with
    | nil => exact .inl rfl
    | cons d more => exact .inr ⟨more, by rw [eq_of_beq (hrest d rfl)]⟩
  cases op <;>
  · refine Spells.operator (by decide) (by decide) (by decide) fun rest hrest => ⟨rfl, ?_⟩
    obtain rfl | ⟨more, rfl⟩ := hspace rest hrest <;> rfl

/-- A point spells its token unless a digit follows. -/
theorem spells_dot : Spells (Before (!Number.isDigit ·)) ['.'] (IsPunctuation ".") := by
  refine Spells.punctuation (by decide) (by decide) (by decide) fun rest hrest => ⟨?_, rfl⟩
  cases rest with
  | nil => rfl
  | cons d rest => simpa [Lexeme.startsNumber] using hrest d rfl

theorem spells_opening : Spells (fun _ => True) ['('] (IsPunctuation "(") :=
  Spells.punctuation (by decide) (by decide) (by decide) fun _ _ => ⟨rfl, rfl⟩

theorem spells_closing : Spells (fun _ => True) [')'] (IsPunctuation ")") :=
  Spells.punctuation (by decide) (by decide) (by decide) fun _ _ => ⟨rfl, rfl⟩

theorem spells_opening_bracket : Spells (fun _ => True) ['['] (IsPunctuation "[") :=
  Spells.punctuation (by decide) (by decide) (by decide) fun _ _ => ⟨rfl, rfl⟩

theorem spells_closing_bracket : Spells (fun _ => True) [']'] (IsPunctuation "]") :=
  Spells.punctuation (by decide) (by decide) (by decide) fun _ _ => ⟨rfl, rfl⟩

theorem spells_comma : Spells (fun _ => True) [','] (IsPunctuation ",") :=
  Spells.punctuation (by decide) (by decide) (by decide) fun _ _ => ⟨rfl, rfl⟩

end Marks

end RuleLang
