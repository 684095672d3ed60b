import RuleLang.Proofs.Number.Sign
import RuleLang.Proofs.Token.Spelling

/-!
# What stands in a token

A token of a source that is a number is written with digits and at most one point, and one that is an identifier is
a word. Everything that is written like this is a token again, and every such number is read as a double that is
neither negative nor NaN.
-/

namespace RuleLang

/-- How a source writes a number: as a numeral, or as a point before digits. -/
def Number.IsWritten (cs : List Char) : Prop :=
  Number.IsNumeral cs ∨ ∃ ds, cs = '.' :: ds ∧ ds ≠ [] ∧ ∀ c ∈ ds, Number.isDigit c

/-- What is known of the text of a token that was read from a source. -/
structure Token.Lexical (t : Token) : Prop where
  number : t.kind = .number → Number.IsWritten t.text.toList
  identifier : t.kind = .identifier → IsIdentifier t.text

theorem Token.Lexical.of_kind {t : Token} (hnumber : t.kind ≠ .number) (hidentifier : t.kind ≠ .identifier) :
    t.Lexical :=
  ⟨fun h => absurd h hnumber, fun h => absurd h hidentifier⟩

section Lexing

variable {strict : Bool} {c : Char} {cs : List Char}

theorem mem_takeWhile_digits (cs : List Char) : ∀ d ∈ cs.takeWhile Number.isDigit, Number.isDigit d :=
  List.all_eq_true.1 List.all_takeWhile

/-- Where a number starts, the lexer takes a number. -/
theorem Lexeme.number_isWritten (h : Lexeme.startsNumber (c :: cs)) :
    Number.IsWritten (Lexeme.number (c :: cs)).content := by
  have hwhole := mem_takeWhile_digits (c :: cs)
  by_cases hc : Number.isDigit c
  · have hne : (c :: cs).takeWhile Number.isDigit ≠ [] := by simp [hc]
    rw [Lexeme.number]
    split
    · next rest heq =>
      exact .inl ⟨_, _, rfl, hne, hwhole, .inr ⟨_, rfl, mem_takeWhile_digits rest⟩⟩
    · exact .inl ⟨_, [], (List.append_nil _).symm, hne, hwhole, .inl rfl⟩
  · -- only a point before a digit starts a number otherwise
    obtain ⟨d, ds, rfl, rfl, hd⟩ : ∃ d ds, c = '.' ∧ cs = d :: ds ∧ Number.isDigit d := by
      unfold Lexeme.startsNumber at h
      split at h
      · next d ds heq =>
        cases heq
        exact ⟨d, ds, rfl, rfl, h⟩
      · next heq =>
        cases heq
        exact absurd h hc
      · cases h
    refine .inr ⟨(d :: ds).takeWhile Number.isDigit, ?_, by simp [hd], mem_takeWhile_digits _⟩
    simp [Lexeme.number, Lexeme.plain, hc]

theorem Lexeme.identifier_isIdentifier (h : isIdentifierStart c) :
    IsIdentifier (String.ofList (Lexeme.identifier (c :: cs)).content) := by
  refine ⟨c, cs.takeWhile isIdentifierPart, ?_, h, List.all_eq_true.1 List.all_takeWhile⟩
  simp [Lexeme.identifier, Lexeme.plain, part_of_start h]

theorem Lexeme.kind_inTable {kind : TokenKind} {table : List String} {l : Lexeme}
    (h : Lexeme.inTable kind table cs = some l) : l.kind = kind := by
  obtain ⟨s, -, rfl⟩ := Option.map_eq_some_iff.1 h
  rfl

theorem Lexeme.lexical_ofChars {l : Lexeme} (h : Lexeme.ofChars strict c cs = .ok l) (position : Nat) :
    Token.Lexical ⟨l.kind, String.ofList l.content, position⟩ := by
  unfold Lexeme.ofChars at h
  split at h
  · next hn =>
    cases h
    refine ⟨fun _ => ?_, fun hk => ?_⟩
    · rw [String.toList_ofList]
      exact Lexeme.number_isWritten hn
    · unfold Lexeme.number at hk
      split at hk <;> cases hk
  split at h
  · split at h
    · cases h
    · cases h
      exact ⟨nofun, nofun⟩
  split at h
  · next hi =>
    cases h
    exact ⟨nofun, fun _ => Lexeme.identifier_isIdentifier hi⟩
  split at h
  · next l' hl =>
    cases h
    rcases Option.or_eq_some_iff.1 hl with ho | ⟨_, hp⟩
    · exact .of_kind (by simp [Lexeme.kind_inTable ho]) (by simp [Lexeme.kind_inTable ho])
    · exact .of_kind (by simp [Lexeme.kind_inTable hp]) (by simp [Lexeme.kind_inTable hp])
  · cases h

/-- All tokens of a source are as they should be. -/
theorem lexical_tokensFrom {position : Nat} {ts : List Token} (h : tokensFrom strict position cs = .ok ts) :
    ∀ t ∈ ts, t.Lexical := by
  refine tokensFrom_induction (motive := fun _ _ ts => ∀ t ∈ ts, t.Lexical) ?_ ?_ ?_ h
  · intro position t ht
    rw [List.mem_singleton.1 ht]
    exact .of_kind (by simp) (by simp)
  · intro _ _ _ _ _ ih
    exact ih
  · intro position _ _ _ _ _ hl ih
    exact List.forall_mem_cons.2 ⟨Lexeme.lexical_ofChars hl position, ih⟩

/-- The places of the tokens of a source go up. -/
theorem ordered_tokensFrom {position : Nat} {ts : List Token} (h : tokensFrom strict position cs = .ok ts) :
    (position :: ts.map Token.position).Pairwise (· ≤ ·) := by
  refine tokensFrom_induction (motive := fun position _ ts => (position :: ts.map Token.position).Pairwise (· ≤ ·))
    ?_ ?_ ?_ h
  · intro position
    simp
  · intro position _ _ ts _ ih
    obtain ⟨hbehind, hts⟩ := List.pairwise_cons.1 ih
    exact List.pairwise_cons.2 ⟨fun p hp => Nat.le_of_succ_le (hbehind p hp), hts⟩
  · intro position _ _ _ ts _ _ ih
    obtain ⟨hbehind, hts⟩ := List.pairwise_cons.1 ih
    have hnext : ∀ p ∈ ts.map Token.position, position ≤ p := fun p hp => Nat.le_of_add_right_le (hbehind p hp)
    have hfrom := List.pairwise_cons.2 ⟨hnext, hts⟩
    exact List.pairwise_cons.2 ⟨List.forall_mem_cons.2 ⟨Nat.le_refl _, hnext⟩, hfrom⟩

end Lexing

section Numbers

variable {cs ds : List Char}

/-- A number has digits before its point or behind it. -/
theorem Number.isWritten_iff : Number.IsWritten cs ↔ ∃ whole fraction, cs = whole ++ fraction ∧
    (∀ d ∈ whole, Number.isDigit d) ∧ (fraction = [] ∧ whole ≠ [] ∨
      ∃ ds, fraction = '.' :: ds ∧ (∀ d ∈ ds, Number.isDigit d) ∧ (whole ≠ [] ∨ ds ≠ [])) := by
  constructor
  · intro h
    rcases h with ⟨whole, fraction, rfl, hne, hwhole, hfraction⟩ | ⟨ds, rfl, hne, hds⟩
    · refine ⟨whole, fraction, rfl, hwhole, hfraction.imp (fun h => ⟨h, hne⟩) ?_⟩
      exact fun ⟨ds, hpoint, hds⟩ => ⟨ds, hpoint, hds, .inl hne⟩
    · exact ⟨[], '.' :: ds, rfl, nofun, .inr ⟨ds, rfl, hds, .inr hne⟩⟩
  · intro ⟨whole, fraction, hcs, hwhole, hfraction⟩
    subst hcs
    by_cases hne : whole = []
    · subst hne
      rcases hfraction with ⟨_, h⟩ | ⟨ds, rfl, hds, h | h⟩
      · exact absurd rfl h
      · exact absurd rfl h
      · exact .inr ⟨ds, rfl, h, hds⟩
    · refine .inl ⟨whole, fraction, rfl, hne, hwhole, hfraction.imp And.left ?_⟩
      exact fun ⟨ds, hpoint, hds, _⟩ => ⟨ds, hpoint, hds⟩

theorem Number.spells_point (hds : ∀ c ∈ ds, Number.isDigit c) (hne : ds ≠ []) :
    Spells (Before endsNumeral) ('.' :: ds) (IsToken .number (String.ofList ('.' :: ds))) := by
  refine Spells.lexeme (by decide) fun strict rest hrest => ?_
  have hdigit : Before (!Number.isDigit ·) rest := hrest.mono fun c hc => by simp_all [endsNumeral]
  have hstart : Lexeme.startsNumber ('.' :: (ds ++ rest)) := by
    cases ds with
    | nil => exact absurd rfl hne
    | cons d ds => exact hds d (List.mem_cons_self ..)
  refine ⟨Lexeme.number ('.' :: (ds ++ rest)), by rw [Lexeme.ofChars, if_pos hstart], ?_⟩
  have hpoint : Number.isDigit '.' = false := by decide
  simp [Lexeme.number, Lexeme.plain, hpoint, takeWhile_append_stop hds hdigit, dropWhile_append_stop hds hdigit]

/-- Whatever is written like a number is read as one token. -/
theorem Number.IsWritten.spells (h : Number.IsWritten cs) :
    Spells (Before endsNumeral) cs (IsToken .number (String.ofList cs)) := by
  rcases h with h | ⟨ds, rfl, hne, hds⟩
  · exact h.spells
  · exact Number.spells_point hds hne

/-- A written number starts with a digit or a point. -/
theorem Number.IsWritten.head (h : Number.IsWritten cs) :
    ∃ c cs', cs = c :: cs' ∧ 46 ≤ c.toNat ∧ c.toNat ≤ 57 := by
  rcases h with h | ⟨ds, rfl, -, -⟩
  · cases cs with
    | nil =>
      obtain ⟨whole, fraction, heq, hne, -⟩ := h
      exact absurd (List.append_eq_nil_iff.1 heq.symm).1 hne
    | cons c cs =>
      have hrange := isDigit_iff.1 h.digit_head
      exact ⟨c, cs, rfl, by omega, hrange.2⟩
  · exact ⟨'.', ds, rfl, by decide, by decide⟩

/-- So it has no sign, and it is not a name. -/
theorem Number.IsWritten.read?_eq (h : Number.IsWritten cs) :
    Number.read? (String.ofList cs) = (Number.readDecimal? cs).map Number.nearestFloat := by
  obtain ⟨c, cs, rfl, hlow, hhigh⟩ := h.head
  have hsign : Number.readSign (c :: cs) = (false, c :: cs) := by
    have hminus : c ≠ '-' := ne_of_toNat (by change c.toNat ≠ 45; omega)
    have hplus : c ≠ '+' := ne_of_toNat (by change c.toNat ≠ 43; omega)
    rw [Number.readSign]
    · exact fun _ heq => hminus (List.cons.inj heq).1
    · exact fun _ heq => hplus (List.cons.inj heq).1
  have hname : Number.readName? (c :: cs) = none := by
    have hlower : c.toLower = c := by
      refine dif_neg fun h => ?_
      have hupper : 65 ≤ c.toNat := UInt32.le_iff_toNat_le.1 h.1
      omega
    have hi : c ≠ 'i' := ne_of_toNat (by change c.toNat ≠ 105; omega)
    have hn : c ≠ 'n' := ne_of_toNat (by change c.toNat ≠ 110; omega)
    have hne (s : String) (d : Char) (ds : List Char) (hs : s.toList = d :: ds) (hd : c ≠ d) :
        String.ofList ((c :: cs).map Char.toLower) ≠ s := by
      intro heq
      rw [← heq, String.toList_ofList, List.map_cons, hlower] at hs
      exact hd (List.cons.inj hs).1
    rw [Number.readName?]
    split
    · next heq => exact absurd heq (hne "inf" 'i' ['n', 'f'] rfl hi)
    · next heq => exact absurd heq (hne "infinity" 'i' ['n', 'f', 'i', 'n', 'i', 't', 'y'] rfl hi)
    · next heq => exact absurd heq (hne "nan" 'n' ['a', 'n'] rfl hn)
    · rfl
  rw [Number.read?, String.toList_ofList, hsign]
  simp only [Number.readUnsigned?, hname, Bool.false_eq_true, ↓reduceIte, Option.map_id_fun', id]

theorem Number.readDecimal?_isSome {whole fraction : List Char} (hwhole : ∀ c ∈ whole, Number.isDigit c)
    (hfraction : fraction = [] ∧ whole ≠ [] ∨
      ∃ ds, fraction = '.' :: ds ∧ (∀ c ∈ ds, Number.isDigit c) ∧ (whole ≠ [] ∨ ds ≠ [])) :
    (Number.readDecimal? (whole ++ fraction)).isSome := by
  have hstop (ds : List Char) (hds : ∀ c ∈ ds, Number.isDigit c) :
      ds.takeWhile Number.isDigit = ds ∧ ds.dropWhile Number.isDigit = [] := by
    have htake := takeWhile_append_stop hds Before.nil
    have hdrop := dropWhile_append_stop hds Before.nil
    rw [List.append_nil] at htake hdrop
    exact ⟨htake, hdrop⟩
  rcases hfraction with ⟨rfl, hne⟩ | ⟨ds, rfl, hds, hne⟩
  · rw [List.append_nil]
    simp [Number.readDecimal?, hstop whole hwhole, Number.readFraction, Number.readExponent?, hne]
  · have hpoint : Before (!Number.isDigit ·) ('.' :: ds) := before_cons.2 rfl
    have hne : ¬(whole = [] ∧ ds = []) := fun h => hne.elim (· h.1) (· h.2)
    simp [Number.readDecimal?, takeWhile_append_stop hwhole hpoint, dropWhile_append_stop hwhole hpoint,
      hstop ds hds, Number.readFraction, Number.readExponent?, hne]

theorem Number.IsWritten.readDecimal? (h : Number.IsWritten cs) : ∃ d, Number.readDecimal? cs = some d := by
  obtain ⟨whole, fraction, rfl, hwhole, hfraction⟩ := Number.isWritten_iff.1 h
  exact Option.isSome_iff_exists.1 (Number.readDecimal?_isSome hwhole hfraction)

/-- So it is read as a double that is not negative, not minus zero and not NaN. -/
theorem Number.IsWritten.read? (h : Number.IsWritten cs) :
    ∃ x, Number.read? (String.ofList cs) = some x ∧ 0 ≤ x ∧ x ≠ -0 := by
  obtain ⟨d, hd⟩ := h.readDecimal?
  refine ⟨Number.nearestFloat d, ?_, (Number.plus_nearestFloat d).nonneg⟩
  rw [h.read?_eq, hd, Option.map_some]

end Numbers

end RuleLang
