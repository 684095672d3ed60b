import RuleLang.Proofs.Token.Concatenation

/-!
# Strings that are left open

A string that is not closed takes all the rest of its source. So whether strings must be closed matters for one string
at most, the last one, and for nothing before it: there the strict lexer finds what the other one finds, and only then
fails. What such a string has for its content is what it would have if its quote stood at the end, where a last
backslash that has nothing to escape is paired first.
-/

namespace RuleLang

/-- Whether a text ends with a backslash that is not one of a pair: with an odd number of them. -/
def EndsUnpaired (cs : List Char) : Prop :=
  (cs.reverse.takeWhile (· == '\\')).length % 2 = 1

instance (cs : List Char) : Decidable (EndsUnpaired cs) :=
  inferInstanceAs (Decidable (_ = _))

/-- What a text that ends inside a string lacks: the quote, and a backslash before it if one is unpaired. -/
def closing (quote : Char) (cs : List Char) : List Char :=
  if EndsUnpaired cs then ['\\', quote] else [quote]

/-- `OpenString quote inside content`: behind the quote, all that is left of a source is the inside of a string. -/
inductive OpenString (quote : Char) : List Char → List Char → Prop
  | plain {body content : List Char} (inside : Unescapes quote body content) : OpenString quote body content
  | backslash {body content : List Char} (inside : Unescapes quote body content) :
      OpenString quote (body ++ ['\\']) (content ++ ['\\'])

section Pairs

variable {quote c : Char} {cs body content : List Char}

theorem endsUnpaired_concat_backslash : EndsUnpaired (cs ++ ['\\']) ↔ ¬EndsUnpaired cs := by
  simp only [EndsUnpaired, List.reverse_append, List.reverse_singleton, List.singleton_append, List.takeWhile_cons,
    beq_self_eq_true, ↓reduceIte, List.length_cons]
  omega

theorem not_endsUnpaired_concat (hc : c ≠ '\\') : ¬EndsUnpaired (cs ++ [c]) := by
  simp [EndsUnpaired, hc]

/-- The backslashes inside a string are paired with what they escape, be it another backslash. -/
theorem Unescapes.not_endsUnpaired (h : Unescapes quote body content) (hcs : ¬EndsUnpaired cs) :
    ¬EndsUnpaired (cs ++ body) := by
  induction h generalizing cs with
  | nil => rwa [List.append_nil]
  | @plain c body content hbackslash hquote _ ih =>
    rw [List.append_cons]
    exact ih (not_endsUnpaired_concat hbackslash)
  | @escaped c body content _ ih =>
    have hpair : ¬EndsUnpaired (cs ++ ['\\'] ++ [c]) := by
      by_cases hc : c = '\\'
      · rwa [hc, endsUnpaired_concat_backslash, endsUnpaired_concat_backslash, not_not]
      · exact not_endsUnpaired_concat hc
    rw [List.append_cons, List.append_cons]
    exact ih hpair

theorem Unescapes.append {body' content' : List Char} (h : Unescapes quote body content)
    (h' : Unescapes quote body' content') : Unescapes quote (body ++ body') (content ++ content') := by
  induction h with
  | nil => exact h'
  | plain hbackslash hquote _ ih => exact .plain hbackslash hquote ih
  | escaped c _ ih => exact .escaped c ih

end Pairs

section Modes

variable {position : Nat} {quote c : Char} {cs before inside content : List Char} {ts : List Token}

/-- The lexer takes the same in both modes, but for a string that is left open. -/
theorem Lexeme.ofChars_strict_cases (c : Char) (cs : List Char) :
    ofChars true c cs = ofChars false c cs ∨ (c = '"' ∨ c = '\x27') ∧ ∃ content, OpenString c cs content := by
  by_cases hquote : c = '"' ∨ c = '\x27'
  · obtain ⟨body, content, ending, last, rest, hbody, hend, rfl⟩ := exists_unescapes c cs
    cases hend with
    | closed =>
      refine .inl ?_
      rw [ofChars_quote hquote, ofChars_quote hquote, stringBody_eq hquote hbody (.closed rest)]
      simp
    | unclosed => exact .inr ⟨hquote, content, by simpa using OpenString.plain hbody⟩
    | backslash => exact .inr ⟨hquote, content ++ ['\\'], by simpa using OpenString.backslash hbody⟩
  · exact .inl (ofChars_of_not_quote hquote true)

namespace OpenString

theorem stringBody_eq (hquote : quote = '"' ∨ quote = '\x27') (h : OpenString quote inside content) :
    Lexeme.stringBody quote inside = ⟨content, inside, false, []⟩ := by
  cases h with
  | @plain body content hbody =>
    have hbody := Lexeme.stringBody_eq hquote hbody .unclosed
    simpa using hbody
  | @backslash body content hbody =>
    have hbody := Lexeme.stringBody_eq hquote hbody .backslash
    have hne : ('\\' == quote) = false := beq_eq_false_iff_ne.2 (ne_backslash_of_quote hquote).symm
    simpa [hne] using hbody

/-- Behind its quote, a string that is left open is closed by what the text before it and its inside lack. -/
theorem stringBody_closing (hquote : quote = '"' ∨ quote = '\x27') (h : OpenString quote inside content)
    (hcs : ¬EndsUnpaired cs) :
    Lexeme.stringBody quote (inside ++ closing quote (cs ++ inside)) =
      ⟨content, inside ++ closing quote (cs ++ inside), true, []⟩ := by
  cases h with
  | plain hbody =>
    have heq := Lexeme.stringBody_eq hquote hbody (.closed [])
    rw [closing, if_neg (hbody.not_endsUnpaired hcs)]
    simpa using heq
  | @backslash body content hbody =>
    have hunpaired : EndsUnpaired (cs ++ (body ++ ['\\'])) := by
      rw [← List.append_assoc, endsUnpaired_concat_backslash]
      exact hbody.not_endsUnpaired hcs
    have heq := Lexeme.stringBody_eq hquote (hbody.append (.escaped '\\' .nil)) (.closed [])
    rw [closing, if_pos hunpaired]
    simpa using heq

end OpenString

/-- A text that starts at `position` ends inside a string: before its quote it has tokens, and behind the quote it is
all inside. -/
structure EndsInString (position : Nat) (cs before : List Char) (ts : List Token) (quote : Char)
    (inside content : List Char) : Prop where
  text_eq : cs = before ++ quote :: inside
  tokens_before : tokensFrom true position before = .ok ts
  isQuote : quote = '"' ∨ quote = '\x27'
  isOpen : OpenString quote inside content

/-- A text has the same tokens or the same fault in both modes, unless it ends inside a string. -/
theorem tokensFrom_strict_cases (position : Nat) (cs : List Char) :
    tokensFrom true position cs = tokensFrom false position cs ∨
      ∃ before ts quote inside content, EndsInString position cs before ts quote inside content := by
  have hhere {c : Char} {cs : List Char} (hquote : c = '"' ∨ c = '\x27') (hopen : ∃ content, OpenString c cs content)
      (position : Nat) : ∃ before ts quote inside content,
        EndsInString position (c :: cs) before ts quote inside content := by
    obtain ⟨content, hopen⟩ := hopen
    exact ⟨[], [⟨.endOfInput, "", position⟩], c, cs, content, rfl, by rw [tokensFrom], hquote, hopen⟩
  induction cs using lexing_induction false generalizing position with
  | nil =>
    refine .inl ?_
    rw [tokensFrom, tokensFrom]
  | @blank c cs hc ih =>
    rw [tokensFrom_blank hc, tokensFrom_blank hc]
    refine (ih (position + 1)).imp_right ?_
    rintro ⟨before, ts, quote, inside, content, rfl, hbefore, hquote, hopen⟩
    exact ⟨c :: before, ts, quote, inside, content, rfl, by rwa [tokensFrom_blank hc], hquote, hopen⟩
  | @fault c cs reason hc hl =>
    rcases Lexeme.ofChars_strict_cases c cs with heq | ⟨hquote, hopen⟩
    · refine .inl ?_
      rw [tokensFrom_fault hc hl, tokensFrom_fault hc (heq.trans hl)]
    · exact .inr (hhere hquote hopen position)
  | @lexeme c cs l hc hl ih =>
    rcases Lexeme.ofChars_strict_cases c cs with heq | ⟨hquote, hopen⟩
    · rw [hl] at heq
      rw [tokensFrom_lexeme _ hc hl, tokensFrom_lexeme _ hc heq]
      refine (ih (position + l.written.length)).imp (congrArg _) ?_
      rintro ⟨before, ts, quote, inside, content, hrest, hbefore, hquote, hopen⟩
      -- the lexeme is the same one if the text ends before the open string
      obtain ⟨-, happend⟩ := IsLexeme.of_ofChars hl
      obtain ⟨cs', hcs', hok⟩ := Lexeme.ofChars_seam hc heq hrest Before.nil true
      rw [List.append_nil] at hcs' hok
      have htext : c :: cs = l.written ++ before ++ quote :: inside := by
        rw [← happend, hrest, List.append_assoc]
      have htokens : tokensFrom true position (l.written ++ before) =
          .ok (⟨l.kind, String.ofList l.content, position⟩ :: ts) := by
        rw [hcs', tokensFrom_lexeme _ hc hok, hbefore]
        rfl
      exact ⟨_, _, quote, inside, content, htext, htokens, hquote, hopen⟩
    · exact .inr (hhere hquote hopen position)

namespace EndsInString

variable (h : EndsInString position cs before ts quote inside content)

include h

/-- If a source ends inside a string, the strict lexer fails at the quote of the string. -/
theorem strict : tokensFrom true position cs = .error ⟨.unterminatedString, position + before.length⟩ := by
  have hfault : Lexeme.ofChars true quote inside = .error .unterminatedString := by
    rw [Lexeme.ofChars_quote h.isQuote, h.isOpen.stringBody_eq h.isQuote]
    rfl
  rw [h.text_eq, tokensFrom_append h.tokens_before (before_cons.2 (endsWord_of_quote h.isQuote)),
    tokensFrom_fault (not_space_of_quote h.isQuote) hfault]
  rfl

/-- The other one takes all the rest as the content of the string. -/
theorem lenient : tokensFrom false position cs =
    .ok (ts.dropLast ++ [⟨.string, String.ofList content, position + before.length⟩,
      ⟨.endOfInput, "", position + cs.length⟩]) := by
  have hok : Lexeme.ofChars false quote inside = .ok ⟨.string, content, quote :: inside, []⟩ := by
    rw [Lexeme.ofChars_quote h.isQuote, Lexeme.string, h.isOpen.stringBody_eq h.isQuote]
    rfl
  rw [h.text_eq, tokensFrom_append h.tokens_before (before_cons.2 (endsWord_of_quote h.isQuote)),
    tokensFrom_lexeme _ (not_space_of_quote h.isQuote) hok, tokensFrom, List.length_append, ← Nat.add_assoc]
  rfl

/-- What the source lacks closes the string, and its content stays what it was. -/
theorem closed : tokensFrom true position (cs ++ closing quote cs) =
    .ok (ts.dropLast ++ [⟨.string, String.ofList content, position + before.length⟩,
      ⟨.endOfInput, "", position + (cs ++ closing quote cs).length⟩]) := by
  have hpaired : ¬EndsUnpaired (before ++ [quote]) := not_endsUnpaired_concat (ne_backslash_of_quote h.isQuote)
  have hbody := h.isOpen.stringBody_closing h.isQuote hpaired
  rw [← List.append_cons, ← h.text_eq] at hbody
  have hok : Lexeme.ofChars true quote (inside ++ closing quote cs) =
      .ok ⟨.string, content, quote :: (inside ++ closing quote cs), []⟩ := by
    rw [Lexeme.ofChars_quote h.isQuote, Lexeme.string, hbody]
    rfl
  have htext : cs ++ closing quote cs = before ++ quote :: (inside ++ closing quote cs) := by
    rw [h.text_eq, List.append_assoc]
    rfl
  rw [htext, tokensFrom_append h.tokens_before (before_cons.2 (endsWord_of_quote h.isQuote)),
    tokensFrom_lexeme _ (not_space_of_quote h.isQuote) hok, tokensFrom, List.length_append, ← Nat.add_assoc]
  rfl

theorem quote_eq : cs[before.length]? = some quote := by
  rw [h.text_eq, List.getElem?_append_right (Nat.le_refl _), Nat.sub_self, List.getElem?_cons_zero]

end EndsInString

end Modes

/--
Strict strings make a difference to a source only if it ends inside a string. Then the strict lexer fails at the quote
of the string that is the last token otherwise; and if that quote is appended, behind one more backslash where the
source ends with an unpaired one, then it succeeds with the same tokens.
-/
theorem tokenize_open_string (source : String) :
    (∀ ts, tokenize true source = .ok ts → tokenize false source = .ok ts) ∧
    (∀ e, tokenize false source = .error e → tokenize true source = .error e) ∧
    ∀ ts e, tokenize false source = .ok ts → tokenize true source = .error e →
      ∃ front t quote, ts = front ++ [t, ⟨.endOfInput, "", source.length⟩] ∧ t.kind = .string ∧
        e = ⟨.unterminatedString, t.position⟩ ∧ e.fault.message = "Unterminated string literal" ∧
        (quote = '"' ∨ quote = '\x27') ∧ source.toList[t.position]? = some quote ∧
        let closed := source ++ String.ofList (closing quote source.toList)
        tokenize true closed = .ok (front ++ [t, ⟨.endOfInput, "", closed.length⟩]) := by
  have hcases := tokensFrom_strict_cases 0 source.toList
  refine ⟨fun ts => tokensFrom_lenient, fun e hfault => ?_, fun ts e hok hfault => ?_⟩
  · rcases hcases with heq | ⟨_, _, _, _, _, h⟩
    · exact heq.trans hfault
    · rw [tokenize, h.lenient] at hfault
      cases hfault
  · rcases hcases with heq | ⟨_, _, quote, _, _, h⟩
    · rw [tokenize, heq, ← tokenize, hok] at hfault
      cases hfault
    · have hclosed := h.closed
      have hquote := h.quote_eq
      rw [tokenize, h.lenient] at hok
      rw [tokenize, h.strict] at hfault
      cases hok
      cases hfault
      rw [Nat.zero_add] at hclosed
      rw [Nat.zero_add, Nat.zero_add, String.length_toList]
      refine ⟨_, _, quote, rfl, rfl, rfl, rfl, h.isQuote, hquote, ?_⟩
      intro closed
      have hchars : closed.toList = source.toList ++ closing quote source.toList := by
        simp [closed]
      rw [tokenize, hchars, hclosed, Nat.zero_add, ← hchars, String.length_toList]

/-- A source that is a string from its second character on, with an unpaired backslash at its end. -/
theorem tokenize_open_string_backslash :
    let x : Token := ⟨.identifier, "x", 0⟩
    let t : Token := ⟨.string, "a'\\", 1⟩
    tokenize false "x'a\\'\\" = .ok [x, t, ⟨.endOfInput, "", 6⟩] ∧
    tokenize true "x'a\\'\\" = .error ⟨.unterminatedString, 1⟩ ∧
    tokenize true "x'a\\'\\\\'" = .ok [x, t, ⟨.endOfInput, "", 8⟩] ∧
    tokenize false "'a\\'\\\\'" = .ok [⟨.string, "a'\\", 0⟩, ⟨.endOfInput, "", 7⟩] ∧
    tokenize true "'a'#'" = .error ⟨.unexpectedCharacter '#', 3⟩ := by
  intro x t
  have hok : tokenize false "x'a\\'\\" = .ok [x, t, ⟨.endOfInput, "", 6⟩] := by cbv
  have hfault : tokenize true "x'a\\'\\" = .error ⟨.unterminatedString, 1⟩ := by cbv
  have hclosed : tokenize true "'a\\'\\\\'" = .ok [⟨.string, "a'\\", 0⟩, ⟨.endOfInput, "", 7⟩] := by cbv
  have hother : tokenize false "'a'#'" = .error ⟨.unexpectedCharacter '#', 3⟩ := by cbv
  obtain ⟨front, t', quote, hts, -, -, -, -, hquote, happended⟩ := (tokenize_open_string _).2.2 _ _ hok hfault
  have hsplit : [x] ++ [t, ⟨.endOfInput, "", 6⟩] = front ++ [t', ⟨.endOfInput, "", 6⟩] := hts
  obtain ⟨hfront, hlast⟩ := List.append_inj' hsplit rfl
  cases hlast
  cases hquote
  refine ⟨hok, hfault, ?_, (tokenize_open_string _).1 _ hclosed, (tokenize_open_string _).2.1 _ hother⟩
  rw [← hfront] at happended
  exact happended

end RuleLang
