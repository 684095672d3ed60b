import RuleLang.Proofs.Token.Pieces

/-!
# Texts put together

A blank ends every word, and so does a quote. So where one of them follows a source whose strings are closed, the
lexer takes the same lexemes as without what follows, and then goes on as it does at the start of a source: the
tokens behind the seam are those of the second source, at places that are counted from the start of the first.
-/

namespace RuleLang

/-- The same token at a later place. -/
def Token.shift (offset : Nat) (t : Token) : Token :=
  { t with position := t.position + offset }

/-- The same fault at a later place. -/
def Located.shift {Fault : Type} (offset : Nat) (e : Located Fault) : Located Fault :=
  { e with position := e.position + offset }

/-- What a text has as tokens where the tokens `front` and `offset` characters stand before it: these and its own, or
its own error. -/
def tokensBehind (front : List Token) (offset : Nat) :
    Except LexicalError (List Token) → Except LexicalError (List Token)
  | .ok ts => .ok (front ++ ts.map (Token.shift offset))
  | .error e => .error (e.shift offset)

theorem fmap_tokensBehind (before front : List Token) (offset : Nat) (x : Except LexicalError (List Token)) :
    (before ++ ·) <$> tokensBehind front offset x = tokensBehind (before ++ front) offset x := by
  cases x with
  | error e => rfl
  | ok ts => exact congrArg Except.ok (List.append_assoc before front _).symm

/-- The lexer knows the place where it is only to write it down. -/
theorem tokensFrom_add (strict : Bool) (position offset : Nat) (cs : List Char) :
    tokensFrom strict (position + offset) cs = tokensBehind [] offset (tokensFrom strict position cs) := by
  induction cs using lexing_induction strict generalizing position with
  | nil =>
    rw [tokensFrom, tokensFrom]
    rfl
  | blank hc ih => rw [tokensFrom_blank hc, tokensFrom_blank hc, Nat.add_right_comm, ih]
  | fault hc hl =>
    rw [tokensFrom_fault hc hl, tokensFrom_fault hc hl]
    rfl
  | @lexeme c cs l hc hl ih =>
    rw [tokensFrom_lexeme _ hc hl, tokensFrom_lexeme _ hc hl, Nat.add_right_comm, ih]
    cases tokensFrom strict (position + l.written.length) l.rest <;> rfl

section Words

variable {c : Char} {w rest more : List Char}

/-- The characters that stand in no word: blanks and quotes. -/
def endsWord (c : Char) : Bool :=
  isSpace c || c == '"' || c == '\x27'

theorem endsWord_cases (h : endsWord c) :
    c = ' ' ∨ c = '\t' ∨ c = '\r' ∨ c = '\n' ∨ c = '"' ∨ c = '\x27' := by
  simpa only [endsWord, isSpace, Bool.or_eq_true, beq_iff_eq, or_assoc] using h

theorem endsWord_of_quote (hquote : c = '"' ∨ c = '\x27') : endsWord c := by
  rcases hquote with rfl | rfl <;> rfl

theorem not_digit_of_endsWord (h : endsWord c) : Number.isDigit c = false ∧ c ≠ '.' := by
  rcases endsWord_cases h with rfl | rfl | rfl | rfl | rfl | rfl <;> decide

theorem not_part_of_endsWord (h : endsWord c) : isIdentifierPart c = false := by
  rcases endsWord_cases h with rfl | rfl | rfl | rfl | rfl | rfl <;> decide

theorem not_endsWord_of_mem_tables {symbol : String} (h : symbol ∈ operatorTable ++ punctuationTable) :
    ∀ c ∈ symbol.toList, endsWord c = false := by
  have hall : (operatorTable ++ punctuationTable).all fun s => s.toList.all (!endsWord ·) := by decide
  intro c hc
  simpa using List.all_eq_true.1 (List.all_eq_true.1 hall symbol h) c hc

theorem Number.IsWritten.not_endsWord (h : Number.IsWritten w) : ∀ d ∈ w, endsWord d = false := by
  intro d hd
  obtain ⟨whole, fraction, rfl, hwhole, hfraction⟩ := Number.isWritten_iff.1 h
  rw [← Bool.not_eq_true]
  intro hend
  obtain ⟨hdigit, hdot⟩ := not_digit_of_endsWord hend
  have hnot (ds : List Char) (hds : ∀ d ∈ ds, Number.isDigit d) : d ∉ ds := by
    intro hmem
    rw [hds d hmem] at hdigit
    cases hdigit
  rcases List.mem_append.1 hd with hd | hd
  · exact hnot whole hwhole hd
  · rcases hfraction with ⟨rfl, -⟩ | ⟨ds, rfl, hds, -⟩
    · cases hd
    · rcases List.mem_cons.1 hd with hd | hd
      · exact hdot hd
      · exact hnot ds hds hd

/-- Neither a blank nor a quote stands in a word. -/
theorem TokenKind.Writes.not_endsWord {kind : TokenKind} (h : kind.Writes w) : ∀ d ∈ w, endsWord d = false := by
  intro d hd
  cases kind with
  | number => exact Number.IsWritten.not_endsWord h d hd
  | identifier =>
    obtain ⟨c, cs, heq, hc, hcs⟩ := h
    rw [String.toList_ofList] at heq
    subst heq
    have hpart : isIdentifierPart d := by
      rcases List.mem_cons.1 hd with rfl | hd
      · exact part_of_start hc
      · exact hcs d hd
    rw [← Bool.not_eq_true]
    intro hend
    rw [not_part_of_endsWord hend] at hpart
    cases hpart
  | operator => exact not_endsWord_of_mem_tables (List.mem_append_left _ h) d (by rwa [String.toList_ofList])
  | punctuation => exact not_endsWord_of_mem_tables (List.mem_append_right _ h) d (by rwa [String.toList_ofList])
  | string => exact h.elim
  | endOfInput => exact h.elim

/-- A word does not reach over a character that ends words. -/
theorem prefix_of_endsWord (hw : ∀ d ∈ w, endsWord d = false) (hmore : Before endsWord more)
    (h : w <+: rest ++ more) : w <+: rest := by
  rcases List.prefix_or_prefix_of_prefix h (List.prefix_append rest more) with h' | ⟨beyond, rfl⟩
  · exact h'
  · cases beyond with
    | nil => rw [List.append_nil]
    | cons d beyond =>
      obtain ⟨more', rfl⟩ := (List.prefix_append_right_inj rest).1 h
      have hend : endsWord d = true := before_cons.1 hmore
      rw [hw d (by simp)] at hend
      cases hend

theorem Longest.extend {P : List Char → Prop} (hP : ∀ v, P v → ∀ d ∈ v, endsWord d = false)
    (hmore : Before endsWord more) (h : Longest P w rest) : Longest P w (rest ++ more) where
  word := h.word
  longest v hv hbegin := by
    rw [← List.append_assoc] at hbegin
    exact h.longest v hv (prefix_of_endsWord (hP v hv) hmore hbegin)

/-- A lexeme that does not start with a quote is still one when the text goes on behind its end. -/
theorem IsLexeme.extend {kind : TokenKind} {text : String} (hw : Before (!endsWord ·) w)
    (hmore : Before endsWord more) (h : IsLexeme kind text w rest) : IsLexeme kind text w (rest ++ more) := by
  cases h with
  | word longest precedence =>
    refine .word (longest.extend (fun _ => TokenKind.Writes.not_endsWord) hmore) fun hkind v hv hbegin => ?_
    rw [← List.append_assoc] at hbegin
    exact precedence hkind v hv (prefix_of_endsWord hv.not_endsWord hmore hbegin)
  | quoted hquote =>
    have hstart := before_cons.1 hw
    rcases hquote with rfl | rfl <;> cases hstart

end Words

section Seam

variable {strict : Bool} {position : Nat} {c : Char} {cs kept cut more : List Char} {l : Lexeme} {ts : List Token}

/-- Whether strings must be closed matters for strings only. -/
theorem Lexeme.ofChars_of_not_quote (hquote : ¬(c = '"' ∨ c = '\x27')) (strict : Bool) :
    ofChars strict c cs = ofChars false c cs := by
  simp only [ofChars, if_neg hquote]

/--
A lexeme that is taken under strict strings is taken whatever comes after some of the text behind it, if that is the
end or a character that ends words.
-/
theorem Lexeme.ofChars_seam (hc : isSpace c = false) (h : ofChars true c cs = .ok l) (hrest : l.rest = kept ++ cut)
    (hmore : Before endsWord more) (strict : Bool) :
    ∃ cs', l.written ++ (kept ++ more) = c :: cs' ∧
      ofChars strict c cs' = .ok ⟨l.kind, l.content, l.written, kept ++ more⟩ := by
  by_cases hquote : c = '"' ∨ c = '\x27'
  · obtain ⟨body, content, ending, last, rest, inside, stop, rfl⟩ := exists_unescapes c cs
    rw [ofChars_quote hquote, stringBody_eq hquote inside stop, string_eq hquote inside stop] at h
    have hopen : ∀ ending, ending ≠ [c] → (true && !(ending == [c])) = true := by simp
    cases stop with
    | closed rest =>
      simp only [beq_self_eq_true, Bool.not_true, Bool.and_false, Bool.false_eq_true, ↓reduceIte] at h
      cases h
      refine ⟨body ++ [c] ++ (kept ++ more), rfl, ?_⟩
      rw [ofChars_quote hquote, stringBody_eq hquote inside (.closed _), string_eq hquote inside (.closed _)]
      simp
    | unclosed => cases h
    | backslash =>
      rw [if_pos (hopen _ (by simpa using (ne_backslash_of_quote hquote).symm))] at h
      cases h
  · obtain ⟨hlexeme, happend⟩ := IsLexeme.of_ofChars (ofChars_lenient h)
    obtain ⟨w, hw⟩ : ∃ w, l.written = c :: w := by
      have hshorter := length_rest_ofChars h
      cases hwritten : l.written with
      | nil =>
        rw [← happend, hwritten] at hshorter
        exact absurd hshorter (Nat.lt_irrefl _)
      | cons d w =>
        rw [hwritten] at happend
        rw [(List.cons.inj happend).1]
        exact ⟨w, rfl⟩
    have hend : Before (!endsWord ·) l.written := by
      rw [not_or] at hquote
      rw [hw, before_cons]
      simp [endsWord, hc, hquote]
    rw [hrest] at hlexeme
    obtain ⟨c', cs', content, heq, -, htext, hok⟩ := (hlexeme.truncate.extend hend hmore).ofChars
    have hc' : c = c' := by
      rw [hw] at heq
      exact (List.cons.inj heq).1
    subst hc'
    refine ⟨cs', heq, ?_⟩
    rw [ofChars_of_not_quote hquote, hok, String.ofList_injective htext]

/-- Behind a source whose strings are closed, the lexer goes on where a character ends all words. -/
theorem tokensFrom_append (h : tokensFrom true position cs = .ok ts) (hmore : Before endsWord more) (strict : Bool) :
    tokensFrom strict position (cs ++ more) =
      (ts.dropLast ++ ·) <$> tokensFrom strict (position + cs.length) more := by
  have hseam : ts ≠ [] ∧ tokensFrom strict position (cs ++ more) =
      (ts.dropLast ++ ·) <$> tokensFrom strict (position + cs.length) more := by
    refine tokensFrom_induction (motive := fun position cs ts => ts ≠ [] ∧
      tokensFrom strict position (cs ++ more) = (ts.dropLast ++ ·) <$> tokensFrom strict (position + cs.length) more)
      ?_ ?_ ?_ h
    · intro position
      refine ⟨List.cons_ne_nil _ _, ?_⟩
      show tokensFrom strict position more = id <$> tokensFrom strict position more
      rw [id_map]
    · rintro position c cs ts hc ⟨hne, ih⟩
      refine ⟨hne, ?_⟩
      rw [List.cons_append, tokensFrom_blank hc, ih, List.length_cons, Nat.add_right_comm, Nat.add_assoc]
    · rintro position c cs l ts hc hl ⟨hne, ih⟩
      refine ⟨List.cons_ne_nil _ _, ?_⟩
      obtain ⟨-, happend⟩ := IsLexeme.of_ofChars (Lexeme.ofChars_lenient hl)
      obtain ⟨cs', heq, hok⟩ := Lexeme.ofChars_seam hc hl (List.append_nil _).symm hmore strict
      rw [← happend, List.append_assoc, heq, tokensFrom_lexeme _ hc hok, ih, List.dropLast_cons_of_ne_nil hne,
        List.length_append, ← Nat.add_assoc]
      cases tokensFrom strict (position + l.written.length + l.rest.length) more <;> rfl
  exact hseam.2

/-- The last token of a source is its end marker, and no other is one. -/
theorem tokenize_endMarker {source : String} (h : tokenize strict source = .ok ts) :
    ts = ts.dropLast ++ [⟨.endOfInput, "", source.length⟩] ∧ ∀ t ∈ ts.dropLast, t.kind ≠ .endOfInput := by
  obtain ⟨pieces, -, hcut, hts⟩ := exists_pieces (tokensFrom_lenient h)
  rw [Nat.zero_add, String.length_toList] at hts
  have hdrop : ts.dropLast = Piece.tokens pieces := by rw [hts, List.dropLast_concat]
  rw [hdrop]
  exact ⟨hts, hcut.kind_ne⟩

end Seam

/--
A blank keeps two sources apart. Where the strings of the first are closed, the tokens are its own without the end
marker and then those of the second, or the fault of the second; both are found where the second source starts now,
one character behind the first.
-/
theorem tokenize_append_blank {source : String} {ts : List Token} (h : tokenize true source = .ok ts) :
    (ts = ts.dropLast ++ [⟨.endOfInput, "", source.length⟩] ∧ ∀ t ∈ ts.dropLast, t.kind ≠ .endOfInput) ∧
    ∀ blank ∈ [' ', '\t', '\r', '\n'], ∀ (more : String) (strict : Bool),
      tokenize strict (source ++ String.singleton blank ++ more) =
        tokensBehind ts.dropLast (source.length + 1) (tokenize strict more) := by
  refine ⟨tokenize_endMarker h, fun blank hblank more strict => ?_⟩
  have hspace : isSpace blank := by
    simpa [isSpace, or_assoc] using hblank
  have hbreak : Before endsWord (blank :: more.toList) := before_cons.2 (by simp [endsWord, hspace])
  have hchars : (source ++ String.singleton blank ++ more).toList = source.toList ++ blank :: more.toList := by
    simp
  have hmore := tokensFrom_add strict 0 (source.length + 1) more.toList
  rw [Nat.zero_add] at hmore
  rw [tokenize, hchars, tokensFrom_append h hbreak, Nat.zero_add, tokensFrom_blank hspace, String.length_toList, hmore,
    fmap_tokensBehind, List.append_nil, tokenize]

/-- A number that ends with a point, before one that a point could have been the middle of; and strings left open. -/
theorem tokenize_append_blank_points :
    let source := "'é' = 1."
    let ts : List Token := [⟨.string, "é", 0⟩, ⟨.operator, "=", 4⟩, ⟨.number, "1.", 6⟩, ⟨.endOfInput, "", 8⟩]
    tokenize true source = .ok ts ∧
    tokenize false (source ++ String.singleton '\t' ++ "5='") =
      .ok (ts.dropLast ++ [⟨.number, "5", 9⟩, ⟨.operator, "=", 10⟩, ⟨.string, "", 11⟩, ⟨.endOfInput, "", 12⟩]) ∧
    tokenize true (source ++ String.singleton '\t' ++ "5='") = .error ⟨.unterminatedString, 11⟩ := by
  intro source ts
  have hsource : tokenize true source = .ok ts := by cbv
  have hmore : tokenize false "5='" =
      .ok [⟨.number, "5", 0⟩, ⟨.operator, "=", 1⟩, ⟨.string, "", 2⟩, ⟨.endOfInput, "", 3⟩] := by cbv
  have hfault : tokenize true "5='" = .error ⟨.unterminatedString, 2⟩ := by cbv
  obtain ⟨-, happend⟩ := tokenize_append_blank hsource
  have happend := happend '\t' (by decide) "5='"
  have hlength : source.length = 8 := by cbv
  rw [hlength] at happend
  refine ⟨hsource, ?_, ?_⟩
  · rw [happend, hmore]
    rfl
  · rw [happend, hfault]
    rfl

/--
A quoted text is one token in any surroundings. Behind a source whose strings are closed it starts a token of its own,
whose text is the one that was quoted; and what follows it is read as it would be by itself, faults included.
-/
theorem tokenize_append_quote {source : String} {ts : List Token} (h : tokenize true source = .ok ts) :
    (ts = ts.dropLast ++ [⟨.endOfInput, "", source.length⟩] ∧ ∀ t ∈ ts.dropLast, t.kind ≠ .endOfInput) ∧
    ∀ (s more : String) (strict : Bool), tokenize strict (source ++ Text.quote s ++ more) =
      tokensBehind (ts.dropLast ++ [⟨.string, s, source.length⟩]) (source ++ Text.quote s).length
        (tokenize strict more) := by
  refine ⟨tokenize_endMarker h, fun s more strict => ?_⟩
  have hbreak : Before endsWord ((Text.quote s).toList ++ more.toList) := by
    rw [Text.quote, String.toList_ofList]
    exact before_cons.2 rfl
  have hchars : (source ++ Text.quote s ++ more).toList = source.toList ++ ((Text.quote s).toList ++ more.toList) := by
    simp
  have hmore := tokensFrom_add strict 0 (source ++ Text.quote s).length more.toList
  rw [Nat.zero_add] at hmore
  rw [tokenize, hchars, tokensFrom_append h hbreak, Nat.zero_add, tokensFrom_quote, String.length_toList,
    ← String.length_append, hmore, fmap_tokensBehind, fmap_tokensBehind, tokenize]
  rfl

/-- A text that ends with a backslash and a quote, between an identifier and a string that is left open. -/
theorem tokenize_append_quote_backslash :
    let ts : List Token := [⟨.identifier, "x", 0⟩, ⟨.endOfInput, "", 1⟩]
    tokenize true "x" = .ok ts ∧
    tokenize false ("x" ++ Text.quote "\\\"" ++ "\"") =
      .ok (ts.dropLast ++ [⟨.string, "\\\"", 1⟩, ⟨.string, "", 7⟩, ⟨.endOfInput, "", 8⟩]) ∧
    tokenize true ("x" ++ Text.quote "\\\"" ++ "\"") = .error ⟨.unterminatedString, 7⟩ := by
  intro ts
  have hsource : tokenize true "x" = .ok ts := by cbv
  have hmore : tokenize false "\"" = .ok [⟨.string, "", 0⟩, ⟨.endOfInput, "", 1⟩] := by cbv
  have hfault : tokenize true "\"" = .error ⟨.unterminatedString, 0⟩ := by cbv
  obtain ⟨-, happend⟩ := tokenize_append_quote hsource
  have happend := happend "\\\"" "\""
  have hlength : ("x" ++ Text.quote "\\\"").length = 7 := by cbv
  rw [hlength] at happend
  refine ⟨hsource, ?_, ?_⟩
  · rw [happend, hmore]
    rfl
  · rw [happend, hfault]
    rfl

end RuleLang
