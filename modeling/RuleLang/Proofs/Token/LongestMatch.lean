import RuleLang.Proofs.Token.Lexical

/-!
# The longest match

The words that each kind of token allows are given here without the lexer: `TokenKind.Writes`. A lexeme is the
longest word of its kind at the start of a text, or a quoted text. What the lexer takes at a place is a lexeme, and
every lexeme that a text starts with is what the lexer takes there, so a text starts with one lexeme at most.
-/

namespace RuleLang

/-- The words of a kind of token. Quoted texts are not among them: where they end is not a matter of length. -/
def TokenKind.Writes (kind : TokenKind) (w : List Char) : Prop :=
  match kind with
  | .number => Number.IsWritten w
  | .identifier => IsIdentifier (String.ofList w)
  | .operator => String.ofList w ∈ operatorTable
  | .punctuation => String.ofList w ∈ punctuationTable
  | .string | .endOfInput => False

/-- Of the words with a property that `w ++ rest` starts with, `w` is the longest. -/
structure Longest (P : List Char → Prop) (w rest : List Char) : Prop where
  word : P w
  longest : ∀ v, P v → v <+: w ++ rest → v.length ≤ w.length

/-- The inside of a quoted text and what it stands for: a backslash is left out, and the character behind it is
kept whatever it is. The quote stands in it only behind a backslash. -/
inductive Unescapes (quote : Char) : List Char → List Char → Prop
  | nil : Unescapes quote [] []
  | plain {c : Char} {body content : List Char} (hbackslash : c ≠ '\\') (hquote : c ≠ quote)
      (h : Unescapes quote body content) : Unescapes quote (c :: body) (c :: content)
  | escaped (c : Char) {body content : List Char} (h : Unescapes quote body content) :
      Unescapes quote ('\\' :: c :: body) (c :: content)

/-- How a quoted text ends: with its quote, or where the source ends, perhaps with a backslash that has nothing
left to escape and stands for itself. -/
inductive QuoteEnd (quote : Char) : List Char → List Char → List Char → Prop
  | closed (rest : List Char) : QuoteEnd quote [quote] [] rest
  | unclosed : QuoteEnd quote [] [] []
  | backslash : QuoteEnd quote ['\\'] ['\\'] []

/-- `IsLexeme kind text w rest`: before `rest`, the characters `w` write a token of the given kind and text.
A number goes before every other kind; only the point is the start of both. -/
inductive IsLexeme : TokenKind → String → List Char → List Char → Prop
  | word {kind : TokenKind} {w rest : List Char} (longest : Longest kind.Writes w rest)
      (precedence : kind ≠ .number → ∀ v, Number.IsWritten v → ¬v <+: w ++ rest) :
      IsLexeme kind (String.ofList w) w rest
  | quoted {quote : Char} {body content ending last rest : List Char} (hquote : quote = '"' ∨ quote = '\x27')
      (inside : Unescapes quote body content) (stop : QuoteEnd quote ending last rest) :
      IsLexeme .string (String.ofList (content ++ last)) (quote :: (body ++ ending)) rest

section Longest

variable {P : List Char → Prop} {v w rest rest' : List Char}

/-- Two words of one length that start the same text are one word. -/
theorem Longest.unique (h : Longest P w rest) (h' : Longest P v rest') (heq : w ++ rest = v ++ rest') :
    w = v ∧ rest = rest' := by
  have hvw := h.longest v h'.word (heq ▸ List.prefix_append v rest')
  have hwv := h'.longest w h.word (heq ▸ List.prefix_append w rest)
  exact List.append_inj heq (Nat.le_antisymm hwv hvw)

/-- The longest word is still the longest one when the text ends earlier. -/
theorem Longest.truncate {kept cut : List Char} (h : Longest P w (kept ++ cut)) : Longest P w kept :=
  ⟨h.word, fun v hv hbegin => h.longest v hv (by
    rw [← List.append_assoc]
    exact hbegin.trans (List.prefix_append ..))⟩

end Longest

section Scanning

variable {p : Char → Bool} {c : Char} {v w cs rest : List Char}

/-- A start of a text that consists of digits, say, is no longer than all the digits at its start. -/
theorem length_le_takeWhile (hv : ∀ d ∈ v, p d) (hbegin : v <+: cs) : v.length ≤ (cs.takeWhile p).length := by
  obtain ⟨more, rfl⟩ := hbegin
  rw [List.takeWhile_append_of_pos hv, List.length_append]
  exact Nat.le_add_right ..

theorem Lexeme.startsNumber_of_prefix (hw : Number.IsWritten w) (hbegin : w <+: cs) : Lexeme.startsNumber cs := by
  obtain ⟨more, rfl⟩ := hbegin
  rcases hw with h | ⟨ds, rfl, hne, hds⟩
  · cases w with
    | nil =>
      obtain ⟨whole, fraction, heq, hne, -⟩ := h
      exact absurd (List.append_eq_nil_iff.1 heq.symm).1 hne
    | cons d w =>
      have hd := h.digit_head
      have hpoint : d ≠ '.' := fun h => absurd (h ▸ hd) (by decide)
      rw [List.cons_append, Lexeme.startsNumber]
      · exact hd
      · exact fun d' _ hdot => absurd hdot hpoint
  · cases ds with
    | nil => exact absurd rfl hne
    | cons d ds => exact hds d (List.mem_cons_self ..)

theorem Lexeme.number_append (cs : List Char) : (number cs).written ++ (number cs).rest = cs := by
  have hsplit := List.takeWhile_append_dropWhile (p := Number.isDigit) (l := cs)
  rw [number]
  split
  · next rest heq =>
    rw [heq] at hsplit
    simp only [plain, List.append_assoc, List.cons_append, List.takeWhile_append_dropWhile, hsplit]
  · exact hsplit

theorem Lexeme.number_eq (cs : List Char) : number cs = plain .number (number cs).written (number cs).rest := by
  rw [number]
  split <;> rfl

/-- A text starts with a number just where the lexer sees one. -/
theorem Lexeme.startsNumber_iff : startsNumber (c :: cs) ↔ ∃ v, Number.IsWritten v ∧ v <+: c :: cs := by
  constructor
  · intro h
    refine ⟨_, number_isWritten h, (number (c :: cs)).rest, ?_⟩
    rw [number_eq, plain, number_append]
  · intro h
    obtain ⟨v, hv, hbegin⟩ := h
    exact startsNumber_of_prefix hv hbegin

/-- The lexer takes no shorter number than it could. -/
theorem Lexeme.longest_number (h : startsNumber (c :: cs)) :
    Longest Number.IsWritten (number (c :: cs)).written (number (c :: cs)).rest := by
  have hword := number_isWritten h
  rw [number_eq] at hword
  refine ⟨hword, ?_⟩
  rw [number_append]
  generalize c :: cs = text
  intro v hv hbegin
  obtain ⟨whole, fraction, rfl, hwhole, hfraction⟩ := Number.isWritten_iff.1 hv
  have hfront : whole.length ≤ (text.takeWhile Number.isDigit).length :=
    length_le_takeWhile hwhole ((List.prefix_append ..).trans hbegin)
  rcases hfraction with ⟨rfl, -⟩ | ⟨ds, rfl, hds, -⟩
  · rw [List.append_nil, number]
    split
    · simp only [plain, List.length_append]
      omega
    · exact hfront
  · -- the digits before the point are then all that the text starts with, and the lexer goes on behind it
    obtain ⟨more, rfl⟩ := hbegin
    have hpoint : Before (!Number.isDigit ·) ('.' :: (ds ++ more)) := before_cons.2 rfl
    have hback := length_le_takeWhile hds (List.prefix_append ds more)
    simp only [number, List.append_assoc, List.cons_append, takeWhile_append_stop hwhole hpoint,
      dropWhile_append_stop hwhole hpoint, plain, List.length_append, List.length_cons]
    omega

theorem Lexeme.identifier_append (cs : List Char) : (identifier cs).written ++ (identifier cs).rest = cs :=
  List.takeWhile_append_dropWhile

theorem Lexeme.longest_identifier (h : isIdentifierStart c) :
    Longest TokenKind.identifier.Writes (identifier (c :: cs)).written (identifier (c :: cs)).rest := by
  refine ⟨identifier_isIdentifier h, fun v hv hbegin => ?_⟩
  obtain ⟨d, ds, heq, hd, hds⟩ := hv
  rw [String.toList_ofList] at heq
  subst heq
  rw [identifier_append] at hbegin
  refine length_le_takeWhile (fun d' hd' => ?_) hbegin
  rcases List.mem_cons.1 hd' with rfl | hd'
  · exact part_of_start hd
  · exact hds d' hd'

variable {kind : TokenKind} {table : List String} {l : Lexeme}

/-- The first entry of a table that a text starts with, longer entries being first, is the longest one. -/
theorem Lexeme.longest_inTable (hsorted : table.Pairwise fun s t => t.length ≤ s.length)
    (h : inTable kind table cs = some l) :
    l = plain kind l.written l.rest ∧ l.written ++ l.rest = cs ∧
      Longest (fun w => String.ofList w ∈ table) l.written l.rest := by
  obtain ⟨s, hs, rfl⟩ := Option.map_eq_some_iff.1 h
  obtain ⟨hbegin, first, others, rfl, hfirst⟩ := List.find?_eq_some_iff_append.1 hs
  obtain ⟨more, rfl⟩ := List.isPrefixOf_iff_prefix.1 hbegin
  have hdrop : (s.toList ++ more).drop s.length = more := by
    rw [← String.length_toList, List.drop_left]
  rw [hdrop]
  refine ⟨rfl, rfl, by simp [plain], fun v hv hvprefix => ?_⟩
  rw [← String.length_ofList]
  refine le_of_le_of_eq ?_ String.length_toList.symm
  rcases List.mem_append.1 hv with hv | hv
  · -- an entry before the one that was found does not start the text
    have hno := hfirst _ hv
    rw [String.toList_ofList, Bool.not_eq_true', ← Bool.not_eq_true, List.isPrefixOf_iff_prefix] at hno
    exact absurd hvprefix hno
  · rcases List.mem_cons.1 hv with hv | hv
    · exact Nat.le_of_eq (congrArg String.length hv)
    · exact (List.pairwise_cons.1 (List.pairwise_append.1 hsorted).2.1).1 _ hv

theorem Lexeme.inTable_eq_none : inTable kind table cs = none ↔ ∀ s ∈ table, ¬s.toList <+: cs := by
  simp [inTable]

/-- The longest entry of a table is what is found in it. -/
theorem Lexeme.inTable_of_longest (hsorted : table.Pairwise fun s t => t.length ≤ s.length)
    (h : Longest (fun w => String.ofList w ∈ table) w rest) :
    inTable kind table (w ++ rest) = some (plain kind w rest) := by
  cases hfound : inTable kind table (w ++ rest) with
  | none =>
    refine absurd (List.prefix_append w rest) ?_
    simpa using inTable_eq_none.1 hfound _ h.word
  | some l =>
    obtain ⟨hl, happend, hlongest⟩ := longest_inTable hsorted hfound
    obtain ⟨hw, hrest⟩ := hlongest.unique h happend
    rw [hl, hw, hrest]

end Scanning

section Quoting

variable {quote : Char} {body content ending last rest cs : List Char}

theorem QuoteEnd.truncate {kept cut : List Char} (h : QuoteEnd quote ending last (kept ++ cut)) :
    QuoteEnd quote ending last kept := by
  generalize hrest : kept ++ cut = rest at h
  cases h with
  | closed => exact .closed kept
  | unclosed =>
    rw [(List.append_eq_nil_iff.1 hrest).1]
    exact .unclosed
  | backslash =>
    rw [(List.append_eq_nil_iff.1 hrest).1]
    exact .backslash

/-- Whatever follows a quote is the inside of a quoted text, its end, and what is behind it. -/
theorem exists_unescapes (quote : Char) (cs : List Char) :
    ∃ body content ending last rest, Unescapes quote body content ∧ QuoteEnd quote ending last rest ∧
      cs = body ++ ending ++ rest := by
  fun_induction Lexeme.stringBody quote cs with
  | case1 => exact ⟨[], [], [], [], [], .nil, .unclosed, rfl⟩
  | case2 => exact ⟨[], [], ['\\'], ['\\'], [], .nil, .backslash, rfl⟩
  | case3 d ds ih =>
    obtain ⟨body, content, ending, last, rest, hbody, hend, rfl⟩ := ih
    exact ⟨'\\' :: d :: body, d :: content, ending, last, rest, .escaped d hbody, hend, rfl⟩
  | case4 cs hquote => exact ⟨[], [], [quote], [], cs, .nil, .closed cs, rfl⟩
  | case5 c cs hbackslash hquote ih =>
    obtain ⟨body, content, ending, last, rest, hbody, hend, rfl⟩ := ih
    exact ⟨c :: body, c :: content, ending, last, rest, .plain hbackslash hquote hbody, hend, rfl⟩

theorem Lexeme.stringBody_append (h : Unescapes quote body content) (cs : List Char) :
    stringBody quote (body ++ cs) = { stringBody quote cs with
      content := content ++ (stringBody quote cs).content
      written := body ++ (stringBody quote cs).written } := by
  induction h with
  | nil => rfl
  | plain hbackslash hquote _ ih =>
    rw [List.cons_append, stringBody.eq_def]
    simp [hbackslash, hquote, StringBody.cons, ih]
  | escaped c _ ih =>
    rw [List.cons_append, List.cons_append, stringBody.eq_def]
    simp [StringBody.cons, ih]

theorem QuoteEnd.stringBody (hquote : quote ≠ '\\') (h : QuoteEnd quote ending last rest) :
    Lexeme.stringBody quote (ending ++ rest) = ⟨last, ending, ending == [quote], rest⟩ := by
  rw [Lexeme.stringBody.eq_def]
  cases h with
  | closed => simp [hquote]
  | unclosed => rfl
  | backslash => simp [hquote.symm]

theorem ne_backslash_of_quote (hquote : quote = '"' ∨ quote = '\x27') : quote ≠ '\\' := by
  rcases hquote with rfl | rfl <;> decide

/-- The inside of a quoted text is read back, and it is closed if it ends with its quote. -/
theorem Lexeme.stringBody_eq (hquote : quote = '"' ∨ quote = '\x27') (h : Unescapes quote body content)
    (hend : QuoteEnd quote ending last rest) :
    stringBody quote (body ++ ending ++ rest) = ⟨content ++ last, body ++ ending, ending == [quote], rest⟩ := by
  rw [List.append_assoc, stringBody_append h, hend.stringBody (ne_backslash_of_quote hquote)]

theorem Lexeme.string_eq (hquote : quote = '"' ∨ quote = '\x27') (h : Unescapes quote body content)
    (hend : QuoteEnd quote ending last rest) :
    string quote (body ++ ending ++ rest) =
      ⟨.string, content ++ last, quote :: (body ++ ending), rest⟩ := by
  rw [string, stringBody_eq hquote h hend]

end Quoting

section OfChars

variable {kind : TokenKind} {text : String} {c : Char} {w rest cs : List Char} {l : Lexeme}

theorem operatorTable_sorted : operatorTable.Pairwise fun s t => t.length ≤ s.length := by decide

theorem punctuationTable_sorted : punctuationTable.Pairwise fun s t => t.length ≤ s.length := by decide

/-- Strict strings only take lexemes away. -/
theorem Lexeme.ofChars_lenient {strict : Bool} (h : ofChars strict c cs = .ok l) : ofChars false c cs = .ok l := by
  unfold ofChars at h ⊢
  split at h
  · next hnumber => rwa [if_pos hnumber]
  next hnumber =>
  rw [if_neg hnumber]
  split at h
  · next hquote =>
    rw [if_pos hquote]
    split at h
    · cases h
    · exact h
  · next hquote => rwa [if_neg hquote]

/-- What the lexer takes is a lexeme. -/
theorem IsLexeme.of_ofChars (h : Lexeme.ofChars false c cs = .ok l) :
    IsLexeme l.kind (String.ofList l.content) l.written l.rest ∧ l.written ++ l.rest = c :: cs := by
  unfold Lexeme.ofChars at h
  split at h
  · next hn =>
    cases h
    rw [Lexeme.number_eq]
    exact ⟨.word (Lexeme.longest_number hn) (absurd rfl), Lexeme.number_append _⟩
  next hn =>
  have hprecedence : ∀ v, Number.IsWritten v → ¬v <+: c :: cs :=
    fun v hv hbegin => hn (Lexeme.startsNumber_iff.2 ⟨v, hv, hbegin⟩)
  split at h
  · next hquote =>
    simp only [Bool.false_and, Bool.false_eq_true, ↓reduceIte] at h
    cases h
    obtain ⟨body, content, ending, last, rest, hbody, hend, rfl⟩ := exists_unescapes c cs
    rw [Lexeme.string_eq hquote hbody hend]
    exact ⟨.quoted hquote hbody hend, rfl⟩
  split at h
  · next hstart =>
    cases h
    refine ⟨.word (Lexeme.longest_identifier hstart) fun _ => ?_, Lexeme.identifier_append _⟩
    exact (Lexeme.identifier_append (c :: cs)).symm ▸ hprecedence
  split at h
  · next l' hl =>
    cases h
    rcases Option.or_eq_some_iff.1 hl with hl | ⟨-, hl⟩
    · obtain ⟨heq, happend, hlongest⟩ := Lexeme.longest_inTable operatorTable_sorted hl
      rw [heq]
      exact ⟨.word hlongest fun _ => happend ▸ hprecedence, happend⟩
    · obtain ⟨heq, happend, hlongest⟩ := Lexeme.longest_inTable punctuationTable_sorted hl
      rw [heq]
      exact ⟨.word hlongest fun _ => happend ▸ hprecedence, happend⟩
  · cases h

/-- Where no number starts, the lexer looks for something else. -/
theorem Lexeme.startsNumber_eq_false (h : ∀ v, Number.IsWritten v → ¬v <+: c :: cs) :
    startsNumber (c :: cs) = false := by
  rw [← Bool.not_eq_true, startsNumber_iff]
  exact fun ⟨v, hv, hbegin⟩ => h v hv hbegin

theorem Longest.ofChars_number (h : Longest Number.IsWritten w rest) :
    ∃ c cs, w ++ rest = c :: cs ∧ isSpace c = false ∧
      Lexeme.ofChars false c cs = .ok (.plain .number w rest) := by
  obtain ⟨c, w, rfl, hlow, hhigh⟩ := h.word.head
  have hspace : isSpace c = false := by
    have hs : c ≠ ' ' := ne_of_toNat (by change c.toNat ≠ 32; omega)
    have ht : c ≠ '\t' := ne_of_toNat (by change c.toNat ≠ 9; omega)
    have hr : c ≠ '\r' := ne_of_toNat (by change c.toNat ≠ 13; omega)
    have hn : c ≠ '\n' := ne_of_toNat (by change c.toNat ≠ 10; omega)
    simp [isSpace, hs, ht, hr, hn]
  have hstart : Lexeme.startsNumber (c :: (w ++ rest)) :=
    Lexeme.startsNumber_iff.2 ⟨c :: w, h.word, List.prefix_append ..⟩
  obtain ⟨hw, hrest⟩ := (Lexeme.longest_number hstart).unique h (Lexeme.number_append _)
  refine ⟨c, w ++ rest, rfl, hspace, ?_⟩
  rw [Lexeme.ofChars, if_pos hstart, Lexeme.number_eq, hw, hrest]

theorem Longest.ofChars_identifier (h : Longest TokenKind.identifier.Writes w rest)
    (hnumber : ∀ v, Number.IsWritten v → ¬v <+: w ++ rest) :
    ∃ c cs, w ++ rest = c :: cs ∧ isSpace c = false ∧
      Lexeme.ofChars false c cs = .ok (.plain .identifier w rest) := by
  obtain ⟨c, w', heq, hc, -⟩ := h.word
  rw [String.toList_ofList] at heq
  subst heq
  rw [List.cons_append] at hnumber
  refine ⟨c, w' ++ rest, rfl, not_space_of_start hc, ?_⟩
  obtain ⟨hw, hrest⟩ := (Lexeme.longest_identifier hc).unique h (Lexeme.identifier_append (c :: (w' ++ rest)))
  have hquote : ¬(c = '"' ∨ c = '\x27') :=
    not_or.2 ⟨ne_of_start hc (by decide), ne_of_start hc (by decide)⟩
  have hok : Lexeme.ofChars false c (w' ++ rest) = .ok (Lexeme.identifier (c :: (w' ++ rest))) := by
    rw [Lexeme.ofChars, Lexeme.startsNumber_eq_false hnumber, if_neg Bool.false_ne_true, if_neg hquote, if_pos hc]
  have hplain : Lexeme.identifier (c :: (w' ++ rest)) = .plain .identifier (c :: w') rest := by
    rw [← hw]
    exact congrArg (Lexeme.plain .identifier _) hrest
  rw [hok, hplain]

/-- Whether the character starts neither a blank nor a quoted text nor an identifier. -/
def isMark (c : Char) : Bool :=
  !isSpace c && c != '"' && c != '\x27' && !isIdentifierStart c

/-- The tables hold marks only. -/
theorem mark_of_mem_tables : ∀ s ∈ operatorTable ++ punctuationTable, s.toList.head?.any isMark := by decide

/-- No operator starts with a punctuation mark. -/
theorem operator_not_prefix_punctuation :
    ∀ s ∈ punctuationTable, ∀ o ∈ operatorTable, o.toList.head? ≠ s.toList.head? := by decide

theorem Lexeme.ofChars_mark (hc : isMark c) (hnumber : ∀ v, Number.IsWritten v → ¬v <+: c :: cs)
    (h : (inTable .operator operatorTable (c :: cs)).or (inTable .punctuation punctuationTable (c :: cs)) =
      some l) :
    isSpace c = false ∧ ofChars false c cs = .ok l := by
  simp only [isMark, Bool.and_eq_true, Bool.not_eq_true', bne_iff_ne] at hc
  obtain ⟨⟨⟨hspace, hdouble⟩, hsingle⟩, hstart⟩ := hc
  refine ⟨hspace, ?_⟩
  rw [ofChars, startsNumber_eq_false hnumber, if_neg Bool.false_ne_true, if_neg (not_or.2 ⟨hdouble, hsingle⟩),
    hstart, if_neg Bool.false_ne_true, h]

/-- An entry of a table starts the text that it is a start of. -/
theorem exists_mark (hw : String.ofList w ∈ operatorTable ++ punctuationTable) (rest : List Char) :
    ∃ c cs, w ++ rest = c :: cs ∧ isMark c ∧ w.head? = some c := by
  have hmark := mark_of_mem_tables _ hw
  rw [String.toList_ofList] at hmark
  cases w with
  | nil => cases hmark
  | cons c w => exact ⟨c, w ++ rest, rfl, hmark, rfl⟩

theorem Longest.ofChars_operator (h : Longest TokenKind.operator.Writes w rest)
    (hnumber : ∀ v, Number.IsWritten v → ¬v <+: w ++ rest) :
    ∃ c cs, w ++ rest = c :: cs ∧ isSpace c = false ∧
      Lexeme.ofChars false c cs = .ok (.plain .operator w rest) := by
  have hfound : Lexeme.inTable .operator operatorTable (w ++ rest) = some (.plain .operator w rest) :=
    Lexeme.inTable_of_longest operatorTable_sorted h
  obtain ⟨c, cs, heq, hmark, -⟩ := exists_mark (List.mem_append_left _ h.word) rest
  rw [heq] at hnumber hfound
  exact ⟨c, cs, heq, Lexeme.ofChars_mark hmark hnumber (by rw [hfound, Option.some_or])⟩

theorem Longest.ofChars_punctuation (h : Longest TokenKind.punctuation.Writes w rest)
    (hnumber : ∀ v, Number.IsWritten v → ¬v <+: w ++ rest) :
    ∃ c cs, w ++ rest = c :: cs ∧ isSpace c = false ∧
      Lexeme.ofChars false c cs = .ok (.plain .punctuation w rest) := by
  have hfound : Lexeme.inTable .punctuation punctuationTable (w ++ rest) = some (.plain .punctuation w rest) :=
    Lexeme.inTable_of_longest punctuationTable_sorted h
  obtain ⟨c, cs, heq, hmark, hhead⟩ := exists_mark (List.mem_append_right _ h.word) rest
  have hnone : Lexeme.inTable .operator operatorTable (w ++ rest) = none := by
    refine Lexeme.inTable_eq_none.2 fun o ho hbegin => ?_
    have hne := operator_not_prefix_punctuation _ h.word o ho
    have hsome := mark_of_mem_tables o (List.mem_append_left _ ho)
    obtain ⟨more, hmore⟩ := hbegin
    cases hchars : o.toList with
    | nil =>
      rw [hchars] at hsome
      cases hsome
    | cons d o' =>
      rw [hchars, String.toList_ofList, hhead] at hne
      rw [hchars, heq] at hmore
      exact hne (congrArg some (List.cons.inj hmore).1)
  rw [heq] at hnumber hfound hnone
  exact ⟨c, cs, heq, Lexeme.ofChars_mark hmark hnumber (by rw [hnone, hfound, Option.none_or])⟩

theorem Lexeme.ofChars_quote {strict : Bool} (hquote : c = '"' ∨ c = '\x27') :
    ofChars strict c cs =
      if strict && !(stringBody c cs).closed then .error .unterminatedString else .ok (string c cs) := by
  have hnumber : startsNumber (c :: cs) = false := by
    rcases hquote with rfl | rfl <;> rfl
  rw [ofChars, hnumber, if_neg Bool.false_ne_true, if_pos hquote]

theorem not_space_of_quote (hquote : c = '"' ∨ c = '\x27') : isSpace c = false := by
  rcases hquote with rfl | rfl <;> rfl

/-- Every lexeme that a text starts with is what the lexer takes there. -/
theorem IsLexeme.ofChars (h : IsLexeme kind text w rest) :
    ∃ c cs content, w ++ rest = c :: cs ∧ isSpace c = false ∧ text = String.ofList content ∧
      Lexeme.ofChars false c cs = .ok ⟨kind, content, w, rest⟩ := by
  cases h with
  | word longest precedence =>
    have hplain : ∃ c cs, w ++ rest = c :: cs ∧ isSpace c = false ∧
        Lexeme.ofChars false c cs = .ok (.plain kind w rest) := by
      cases kind with
      | number => exact longest.ofChars_number
      | identifier => exact longest.ofChars_identifier (precedence nofun)
      | operator => exact longest.ofChars_operator (precedence nofun)
      | punctuation => exact longest.ofChars_punctuation (precedence nofun)
      | string => exact longest.word.elim
      | endOfInput => exact longest.word.elim
    obtain ⟨c, cs, heq, hspace, hok⟩ := hplain
    exact ⟨c, cs, w, heq, hspace, rfl, hok⟩
  | @quoted quote body content ending last _ hquote inside stop =>
    refine ⟨quote, body ++ ending ++ rest, content ++ last, rfl, not_space_of_quote hquote, rfl, ?_⟩
    rw [Lexeme.ofChars_quote hquote, Lexeme.string_eq hquote inside stop]
    rfl

theorem IsLexeme.kind_ne (h : IsLexeme kind text w rest) : kind ≠ .endOfInput := by
  cases h with
  | word longest =>
    intro hkind
    subst hkind
    exact longest.word
  | quoted => exact nofun

/-- A lexeme is still one when the text ends somewhere behind it. -/
theorem IsLexeme.truncate {kept cut : List Char} (h : IsLexeme kind text w (kept ++ cut)) :
    IsLexeme kind text w kept := by
  cases h with
  | word longest precedence =>
    refine .word longest.truncate fun hkind v hv hbegin => precedence hkind v hv ?_
    rw [← List.append_assoc]
    exact hbegin.trans (List.prefix_append ..)
  | quoted hquote inside stop => exact .quoted hquote inside stop.truncate

end OfChars

end RuleLang
