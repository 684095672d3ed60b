import RuleLang.Proofs.Parser.Image
import RuleLang.Proofs.Token.Pieces
import RuleLang.Text.Blank

/-!
# Texts of blanks

The lexer skips four of the 25 blanks, and no lexeme starts with any of the others. So a text of blanks has no tokens
before its end marker, or else the lexer stops at the first blank that it does not skip. In neither case is the text an
expression, whatever the options.
-/

namespace RuleLang

section Trim

theorem Text.trimChars_eq_nil_iff {cs : List Char} : trimChars cs = [] ↔ ∀ c ∈ cs, isBlank c = true := by
  unfold trimChars
  rw [List.reverse_eq_nil_iff, List.dropWhile_eq_nil_iff]
  constructor
  · intro h
    by_cases hrest : cs.dropWhile isBlank = []
    · exact List.dropWhile_eq_nil_iff.1 hrest
    · -- the first character behind the blanks is no blank, but all of these are blanks
      have hhead := h _ (List.mem_reverse.2 (List.head_mem hrest))
      rw [List.head_dropWhile_not isBlank hrest] at hhead
      cases hhead
  · intro h c hc
    exact h c ((List.dropWhile_sublist isBlank).subset (List.mem_reverse.1 hc))

theorem Text.allBlank_iff {s : String} : allBlank s = true ↔ ∀ c ∈ s.toList, isBlank c = true :=
  List.all_eq_true

/-- Nothing is left of a text of blanks when it is trimmed, and of no other text. -/
theorem Text.trim_eq_empty_iff {s : String} : trim s = "" ↔ ∀ c ∈ s.toList, isBlank c = true := by
  rw [trim, ← trimChars_eq_nil_iff, ← String.toList_inj, String.toList_ofList]
  rfl

end Trim

section Blanks

variable {strict : Bool} {c : Char} {cs : List Char} {l : Lexeme}

theorem Text.bounds_of_isBlank (h : isBlank c = true) : c.toNat ≤ 32 ∨ 127 ≤ c.toNat := by
  simp only [isBlank, blankRanges, List.any_cons, List.any_nil, Bool.or_false, Bool.or_eq_true, Bool.and_eq_true,
    decide_eq_true_eq] at h
  omega

theorem bounds_of_mem_tables {s : String} (hs : s ∈ operatorTable ++ punctuationTable) (hc : c ∈ s.toList) :
    33 ≤ c.toNat ∧ c.toNat ≤ 126 := by
  have hall : (operatorTable ++ punctuationTable).all fun s => s.toList.all fun c =>
      decide (33 ≤ c.toNat ∧ c.toNat ≤ 126) := by decide
  simpa using List.all_eq_true.1 (List.all_eq_true.1 hall s hs) c hc

theorem InAlphabet.bounds (h : InAlphabet c) (hspace : isSpace c = false) : 33 ≤ c.toNat ∧ c.toNat ≤ 126 := by
  rcases h with h | rfl | rfl | h | h | ⟨s, hs, h⟩
  · rw [hspace] at h
    cases h
  · decide
  · decide
  · have := isDigit_iff.1 h
    omega
  · have := isIdentifierStart_iff.1 h
    omega
  · exact bounds_of_mem_tables hs h

theorem InAlphabet.of_mem_tables {s : String} (hs : s ∈ operatorTable ++ punctuationTable) (hc : c ∈ s.toList) :
    InAlphabet c :=
  .inr (.inr (.inr (.inr (.inr ⟨s, hs, hc⟩))))

theorem Lexeme.inAlphabet_of_startsNumber (h : startsNumber (c :: cs) = true) : InAlphabet c := by
  by_cases hpoint : c = '.'
  · rw [hpoint]
    exact .of_mem_tables (s := ".") (by decide) (by decide)
  · have hdigit : startsNumber (c :: cs) = Number.isDigit c := by
      rw [startsNumber]
      exact fun _ _ heq => absurd heq hpoint
    rw [hdigit] at h
    exact .inr (.inr (.inr (.inl h)))

theorem Lexeme.inAlphabet_of_inTable {kind : TokenKind} {table : List String}
    (htable : ∀ s ∈ table, s ∈ operatorTable ++ punctuationTable) (h : inTable kind table (c :: cs) = some l) :
    InAlphabet c := by
  obtain ⟨s, hfind, -⟩ := Option.map_eq_some_iff.1 h
  have hs := htable s (List.mem_of_find?_eq_some hfind)
  have hstart := List.find?_some hfind
  have hprefix : s.toList <+: c :: cs := List.isPrefixOf_iff_prefix.1 hstart
  cases hchars : s.toList with
  | nil =>
    have hmark := mark_of_mem_tables s hs
    rw [hchars] at hmark
    cases hmark
  | cons d ds =>
    rw [hchars] at hprefix
    refine .of_mem_tables hs ?_
    rw [hchars, (List.cons_prefix_cons.1 hprefix).1]
    exact List.mem_cons_self ..

/-- What starts a lexeme is in the alphabet. -/
theorem Lexeme.inAlphabet_of_ofChars (h : ofChars strict c cs = .ok l) : InAlphabet c := by
  unfold ofChars at h
  split at h
  · next hnumber => exact inAlphabet_of_startsNumber hnumber
  split at h
  · next hquote => exact .inr (hquote.imp id .inl)
  split at h
  · next hstart => exact .inr (.inr (.inr (.inr (.inl hstart))))
  split at h
  · next hmark =>
    rcases Option.or_eq_some_iff.1 hmark with hoperator | ⟨-, hpunctuation⟩
    · exact inAlphabet_of_inTable (fun s => List.mem_append_left _) hoperator
    · exact inAlphabet_of_inTable (fun s => List.mem_append_right _) hpunctuation
  · cases h

/-- A blank that is not skipped starts no lexeme. -/
theorem Text.not_ofChars_of_isBlank (h : isBlank c = true) (hspace : isSpace c = false) :
    Lexeme.ofChars strict c cs ≠ .ok l := by
  intro hl
  have hblank := bounds_of_isBlank h
  have hbounds := (Lexeme.inAlphabet_of_ofChars hl).bounds hspace
  omega

/-- A text of blanks that has tokens has the end marker only. -/
theorem tokensFrom_blanks {position : Nat} {ts : List Token} (h : ∀ c ∈ cs, Text.isBlank c = true)
    (hts : tokensFrom strict position cs = .ok ts) : ts = [⟨.endOfInput, "", position + cs.length⟩] := by
  revert h
  refine tokensFrom_induction (motive := fun position cs ts => (∀ c ∈ cs, Text.isBlank c = true) →
    ts = [⟨.endOfInput, "", position + cs.length⟩]) ?_ ?_ ?_ hts
  · intro position _
    rfl
  · intro position c cs ts _ ih h
    rw [ih fun d hd => h d (List.mem_cons_of_mem c hd), List.length_cons, Nat.add_right_comm]
    rfl
  · intro position c cs l ts hspace hl _ h
    exact absurd hl (Text.not_ofChars_of_isBlank (h c (List.mem_cons_self ..)) hspace)

end Blanks

/-- An end marker alone is no expression, as nothing can be taken from it. -/
theorem parseTokens_marker_ne_ok (maxDepth position : Nat) (e : Expr) :
    parseTokens maxDepth [⟨.endOfInput, "", position⟩] ≠ .ok e := by
  intro h
  have hlength := (Grammar.parseTokens_eq_ok.1 h).length_lt
  exact Nat.lt_irrefl 0 hlength

/-- A text of blanks is no expression. -/
theorem Options.parse_blanks (o : Options) {source : String} (h : ∀ c ∈ source.toList, Text.isBlank c = true) :
    ∃ err, o.parse source = .error err := by
  cases hparse : o.parse source with
  | error err => exact ⟨err, rfl⟩
  | ok e =>
    obtain ⟨ts, hts, he⟩ := Options.parse_eq_ok.1 hparse
    rw [tokensFrom_blanks h hts] at he
    exact absurd he (parseTokens_marker_ne_ok _ _ e)

end RuleLang
