import RuleLang.Proofs.Token.LongestMatch

/-!
# The pieces of a source

The tokens of a source leave nothing out: the source is blanks and lexemes one after the other, every token knows
where its lexeme starts, and the end marker stands at the end. Where no tokens are found, everything before the
reported place could still be cut into pieces, and the character there is the start of none.
-/

namespace RuleLang

/-- A piece of a source: a blank, or a token with the characters that it is written with. -/
inductive Piece where
  | blank (c : Char)
  | lexeme (t : Token) (written : List Char)

namespace Piece

def chars : Piece → List Char
  | blank c => [c]
  | lexeme _ written => written

def token? : Piece → Option Token
  | blank _ => none
  | lexeme t _ => some t

/-- What pieces are written with, one after the other. -/
def text (pieces : List Piece) : List Char :=
  pieces.flatMap chars

def tokens (pieces : List Piece) : List Token :=
  pieces.filterMap token?

/-- What a piece that starts at the given offset, before the given characters, has to be. -/
def Stands (offset : Nat) (rest : List Char) : Piece → Prop
  | blank c => isSpace c
  | lexeme t written => t.position = offset ∧ IsLexeme t.kind t.text written rest

/-- Every piece stands between its neighbours, the first one at the given offset. -/
def Cut (offset : Nat) (pieces : List Piece) : Prop :=
  ∀ before piece behind, pieces = before ++ piece :: behind →
    piece.Stands (offset + (text before).length) (text behind)

variable {offset : Nat} {piece : Piece} {pieces : List Piece}

theorem text_cons : text (piece :: pieces) = piece.chars ++ text pieces := rfl

theorem cut_nil : Cut offset [] := by
  intro before piece behind h
  cases before <;> cases h

theorem cut_cons :
    Cut offset (piece :: pieces) ↔ piece.Stands offset (text pieces) ∧ Cut (offset + piece.chars.length) pieces := by
  constructor
  · intro h
    refine ⟨h [] piece pieces rfl, fun before other behind heq => ?_⟩
    have hother := h (piece :: before) other behind (congrArg (piece :: ·) heq)
    rwa [text_cons, List.length_append, ← Nat.add_assoc] at hother
  · intro ⟨hpiece, hrest⟩ before other behind heq
    cases before with
    | nil =>
      cases heq
      exact hpiece
    | cons first before =>
      cases heq
      have hother := hrest before other behind rfl
      rwa [Nat.add_assoc, ← List.length_append, ← text_cons] at hother

/-- Among the tokens of pieces is no end marker. -/
theorem Cut.kind_ne (h : Cut offset pieces) : ∀ t ∈ tokens pieces, t.kind ≠ .endOfInput := by
  intro t ht
  obtain ⟨piece, hpiece, htoken⟩ := List.mem_filterMap.1 ht
  obtain ⟨before, behind, heq⟩ := List.append_of_mem hpiece
  have hstands := h before piece behind heq
  cases piece with
  | blank c => cases htoken
  | lexeme t' written =>
    cases htoken
    exact hstands.2.kind_ne

end Piece

section Tokens

variable {offset : Nat} {cs : List Char} {ts : List Token}

/-- Pieces that are put together give their tokens back. -/
theorem tokensFrom_text {pieces : List Piece} (h : Piece.Cut offset pieces) :
    tokensFrom false offset (Piece.text pieces) =
      .ok (Piece.tokens pieces ++ [⟨.endOfInput, "", offset + (Piece.text pieces).length⟩]) := by
  induction pieces generalizing offset with
  | nil => rw [Piece.text, List.flatMap_nil, tokensFrom]; rfl
  | cons piece pieces ih =>
    obtain ⟨hpiece, hrest⟩ := Piece.cut_cons.1 h
    have ih := ih hrest
    rw [Nat.add_assoc, ← List.length_append, ← Piece.text_cons] at ih
    cases piece with
    | blank c => exact (tokensFrom_blank hpiece).trans ih
    | lexeme t written =>
      obtain ⟨rfl, hlexeme⟩ := hpiece
      obtain ⟨c, cs, content, heq, hspace, htext, hok⟩ := hlexeme.ofChars
      have hfirst := tokensFrom_lexeme t.position hspace hok
      rw [← heq, ← htext] at hfirst
      exact hfirst.trans (congrArg _ ih)

/-- The tokens of a text come from pieces of it. -/
theorem exists_pieces (h : tokensFrom false offset cs = .ok ts) :
    ∃ pieces, Piece.text pieces = cs ∧ Piece.Cut offset pieces ∧
      ts = Piece.tokens pieces ++ [⟨.endOfInput, "", offset + cs.length⟩] := by
  refine tokensFrom_induction (motive := fun offset cs ts => ∃ pieces, Piece.text pieces = cs ∧
    Piece.Cut offset pieces ∧ ts = Piece.tokens pieces ++ [⟨.endOfInput, "", offset + cs.length⟩]) ?_ ?_ ?_ h
  · intro offset
    exact ⟨[], rfl, Piece.cut_nil, rfl⟩
  · rintro offset c _ _ hc ⟨pieces, rfl, hcut, rfl⟩
    refine ⟨.blank c :: pieces, rfl, Piece.cut_cons.2 ⟨hc, hcut⟩, ?_⟩
    rw [List.length_cons, Nat.add_right_comm]
    rfl
  · rintro offset c cs l _ hc hl ⟨pieces, hrest, hcut, rfl⟩
    obtain ⟨hlexeme, happend⟩ := IsLexeme.of_ofChars hl
    refine ⟨.lexeme ⟨l.kind, String.ofList l.content, offset⟩ l.written :: pieces, ?_, ?_, ?_⟩
    · rw [Piece.text_cons, hrest]
      exact happend
    · exact Piece.cut_cons.2 ⟨⟨rfl, hrest ▸ hlexeme⟩, hcut⟩
    · rw [← happend, List.length_append, ← Nat.add_assoc]
      rfl

/-- So the tokens of a text are told from its pieces, and from nothing else. -/
theorem tokensFrom_iff : tokensFrom false offset cs = .ok ts ↔ ∃ pieces, Piece.text pieces = cs ∧
    Piece.Cut offset pieces ∧ ts = Piece.tokens pieces ++ [⟨.endOfInput, "", offset + cs.length⟩] := by
  constructor
  · exact exists_pieces
  · intro ⟨pieces, htext, hcut, hts⟩
    subst htext hts
    exact tokensFrom_text hcut

/-- What strict strings allow has the same tokens without them. -/
theorem tokensFrom_lenient {strict : Bool} (h : tokensFrom strict offset cs = .ok ts) :
    tokensFrom false offset cs = .ok ts := by
  refine tokensFrom_induction (motive := fun offset cs ts => tokensFrom false offset cs = .ok ts) ?_ ?_ ?_ h
  · intro offset
    rw [tokensFrom]
  · intro offset c cs ts hc ih
    rw [tokensFrom_blank hc, ih]
  · intro offset c cs l ts hc hl ih
    rw [tokensFrom_lexeme _ hc (Lexeme.ofChars_lenient hl), ih]
    rfl

end Tokens

section Faults

variable {offset : Nat} {c : Char} {cs : List Char} {err : LexicalError}

/-- The characters that lexemes outside quoted texts consist of, the quotes, and the blanks. -/
def InAlphabet (c : Char) : Prop :=
  isSpace c ∨ c = '"' ∨ c = '\x27' ∨ Number.isDigit c ∨ isIdentifierStart c ∨
    ∃ s ∈ operatorTable ++ punctuationTable, c ∈ s.toList

/-- Every character of the tables but two is an entry of its own. -/
theorem singleton_mem_tables {s : String} (hs : s ∈ operatorTable ++ punctuationTable) {c : Char}
    (hc : c ∈ s.toList) : c = '&' ∨ c = '|' ∨ String.ofList [c] ∈ operatorTable ++ punctuationTable := by
  have hall : (operatorTable ++ punctuationTable).all fun s => s.toList.all fun c =>
      c == '&' || c == '|' || (operatorTable ++ punctuationTable).contains (String.ofList [c]) := by decide
  have hone := List.all_eq_true.1 (List.all_eq_true.1 hall s hs) c hc
  rwa [Bool.or_eq_true, Bool.or_eq_true, beq_iff_eq, beq_iff_eq, List.contains_iff_mem, or_assoc] at hone

/-- Where the lexer finds no lexeme, the character is not in the alphabet, or is half of an operator. -/
theorem Lexeme.ofChars_error {fault : LexicalFault} (hc : isSpace c = false)
    (h : Lexeme.ofChars false c cs = .error fault) : fault = .unexpectedCharacter c ∧
      (¬InAlphabet c ∨ (c = '&' ∨ c = '|') ∧ cs.head? ≠ some c) := by
  unfold ofChars at h
  split at h
  · cases h
  next hnumber =>
  split at h
  · cases h
  next hquote =>
  split at h
  · cases h
  next hstart =>
  split at h
  · cases h
  next hnone =>
  cases h
  refine ⟨rfl, ?_⟩
  obtain ⟨hoperator, hpunctuation⟩ := Option.or_eq_none_iff.1 hnone
  have htables : ∀ s ∈ operatorTable ++ punctuationTable, ¬s.toList <+: c :: cs := by
    intro s hs
    rcases List.mem_append.1 hs with hs | hs
    · exact inTable_eq_none.1 hoperator s hs
    · exact inTable_eq_none.1 hpunctuation s hs
  by_cases hhalf : c = '&' ∨ c = '|'
  · refine .inr ⟨hhalf, fun hhead => ?_⟩
    obtain ⟨more, rfl⟩ := List.head?_eq_some_iff.1 hhead
    rcases hhalf with rfl | rfl
    · exact htables "&&" (by decide) ⟨more, rfl⟩
    · exact htables "||" (by decide) ⟨more, rfl⟩
  · refine .inl fun halphabet => ?_
    rcases halphabet with h | h | h | h | h | ⟨s, hs, h⟩
    · rw [hc] at h
      cases h
    · exact hquote (.inl h)
    · exact hquote (.inr h)
    · refine hnumber (startsNumber_iff.2 ⟨[c], .inl ⟨[c], [], rfl, by simp, by simpa using h, .inl rfl⟩, ?_⟩)
      exact ⟨cs, rfl⟩
    · exact hstart h
    · rcases singleton_mem_tables hs h with h | h | h
      · exact hhalf (.inl h)
      · exact hhalf (.inr h)
      · refine htables _ h ⟨cs, ?_⟩
        rw [String.toList_ofList]
        rfl

/-- A text without tokens can be cut into pieces up to the reported place, and no further. -/
theorem exists_fault (h : tokensFrom false offset cs = .error err) :
    ∃ pieces c after, cs = Piece.text pieces ++ c :: after ∧ Piece.Cut offset pieces ∧ isSpace c = false ∧
      err.position = offset + (Piece.text pieces).length ∧ Lexeme.ofChars false c after = .error err.fault := by
  induction cs using lexing_induction false generalizing offset with
  | nil =>
    rw [tokensFrom] at h
    cases h
  | @blank c cs hc ih =>
    rw [tokensFrom_blank hc] at h
    obtain ⟨pieces, d, after, rfl, hcut, hd, hposition, hfault⟩ := ih h
    refine ⟨.blank c :: pieces, d, after, rfl, Piece.cut_cons.2 ⟨hc, hcut⟩, hd, ?_, hfault⟩
    rw [hposition, Piece.text_cons, List.length_append, ← Nat.add_assoc]
    rfl
  | @fault c cs _ hc hl =>
    rw [tokensFrom_fault hc hl] at h
    cases h
    exact ⟨[], c, cs, rfl, Piece.cut_nil, hc, rfl, hl⟩
  | @lexeme c cs l hc hl ih =>
    rw [tokensFrom_lexeme _ hc hl] at h
    obtain ⟨hlexeme, happend⟩ := IsLexeme.of_ofChars hl
    cases hfollowing : tokensFrom false (offset + l.written.length) l.rest with
    | ok following =>
      rw [hfollowing] at h
      cases h
    | error err' =>
      rw [hfollowing] at h
      cases h
      obtain ⟨pieces, d, after, hrest, hcut, hd, hposition, hfault⟩ := ih hfollowing
      rw [hrest] at hlexeme happend
      refine ⟨.lexeme ⟨l.kind, String.ofList l.content, offset⟩ l.written :: pieces, d, after, ?_, ?_, hd, ?_, hfault⟩
      · rw [← happend, Piece.text_cons, List.append_assoc]
        rfl
      · exact Piece.cut_cons.2 ⟨⟨rfl, hlexeme.truncate⟩, hcut⟩
      · rw [hposition, Piece.text_cons, List.length_append, ← Nat.add_assoc]
        rfl

end Faults

/-- Without strict strings, the tokens of a source are those of pieces that make it up, with an end marker behind
them. A source without tokens has them up to the reported place, and the character there begins no lexeme: it is
not in the alphabet, or it is one half of `&&` or `||`. -/
theorem tokenize_pieces (source : String) :
    match tokenize false source with
    | .ok ts => ∃ pieces, Piece.text pieces = source.toList ∧ Piece.Cut 0 pieces ∧
        ts = Piece.tokens pieces ++ [⟨.endOfInput, "", source.length⟩] ∧
        ∀ t ∈ Piece.tokens pieces, t.kind ≠ .endOfInput
    | .error err => ∃ before c after, source.toList = before ++ c :: after ∧ err.position = before.length ∧
        err.fault = .unexpectedCharacter c ∧ (∃ ts, tokenize false (String.ofList before) = .ok ts) ∧
        isSpace c = false ∧ (∀ kind text w rest, IsLexeme kind text w rest → w ++ rest ≠ c :: after) ∧
        (¬InAlphabet c ∨ (c = '&' ∨ c = '|') ∧ after.head? ≠ some c) := by
  cases h : tokenize false source with
  | ok ts =>
    obtain ⟨pieces, htext, hcut, hts⟩ := exists_pieces h
    rw [Nat.zero_add, String.length_toList] at hts
    exact ⟨pieces, htext, hcut, hts, hcut.kind_ne⟩
  | error err =>
    obtain ⟨pieces, c, after, hsource, hcut, hc, hposition, hfault⟩ := exists_fault h
    obtain ⟨hcharacter, hreason⟩ := Lexeme.ofChars_error hc hfault
    refine ⟨Piece.text pieces, c, after, hsource, hposition.trans (Nat.zero_add _), hcharacter, ?_, hc, ?_, hreason⟩
    · rw [tokenize, String.toList_ofList]
      exact ⟨_, tokensFrom_text hcut⟩
    · intro kind text w rest hlexeme heq
      obtain ⟨d, cs, content, heq', -, -, hok⟩ := hlexeme.ofChars
      cases heq.symm.trans heq'
      rw [hfault] at hok
      cases hok

-- a point after a fraction, and a backslash with nothing behind it
example : tokenize false "1.5.'a\\" =
    .ok [⟨.number, "1.5", 0⟩, ⟨.punctuation, ".", 3⟩, ⟨.string, "a\\", 4⟩, ⟨.endOfInput, "", 7⟩] := by
  cbv

example : tokenize false "a & b" = .error ⟨.unexpectedCharacter '&', 2⟩ := by
  cbv

end RuleLang
