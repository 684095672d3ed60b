import RuleLang.Fault
import RuleLang.Token.Basic
import RuleLang.Number.Reading

/-!
# From characters to tokens

At every place that is not white space the lexer takes one lexeme: a number, a string, an identifier, or the
longest operator or punctuation mark that starts there. `Lexeme.written ++ Lexeme.rest` is the text from that
place on, and the rest is always shorter, so the lexer ends.
-/

namespace RuleLang

/-- The four characters that may stand between tokens. -/
def isSpace (c : Char) : Bool :=
  c == ' ' || c == '\t' || c == '\r' || c == '\n'

/-- Whether an identifier may start with the character. -/
def isIdentifierStart (c : Char) : Bool :=
  c.isAlpha || c == '_'

/-- Whether the character may stand in an identifier after its start. -/
def isIdentifierPart (c : Char) : Bool :=
  c.isAlphanum || c == '_'

/-- The operators, longer ones first. -/
def operatorTable : List String :=
  ["===", "!==", "&&", "||", "==", "!=", ">=", "<=", "=>",
   "+", "-", "*", "/", "%", "<", ">", "?", ":", "=", "!"]

/-- The punctuation marks. -/
def punctuationTable : List String :=
  ["(", ")", ",", "[", "]", "."]

/-- A lexeme at the start of a text: its kind, its content, the characters it is written with, and those that
follow. -/
structure Lexeme where
  kind : TokenKind
  content : List Char
  written : List Char
  rest : List Char

namespace Lexeme

def plain (kind : TokenKind) (written rest : List Char) : Lexeme :=
  ⟨kind, written, written, rest⟩

/-- The digits at the start of a text, with at most one point among or before them. -/
def number (cs : List Char) : Lexeme :=
  let whole := cs.takeWhile Number.isDigit
  match cs.dropWhile Number.isDigit with
  | '.' :: rest =>
    plain .number (whole ++ '.' :: rest.takeWhile Number.isDigit) (rest.dropWhile Number.isDigit)
  | rest => plain .number whole rest

def identifier (cs : List Char) : Lexeme :=
  plain .identifier (cs.takeWhile isIdentifierPart) (cs.dropWhile isIdentifierPart)

/-- The inside of a string up to its closing quote, if it has one. -/
structure StringBody where
  content : List Char
  written : List Char
  closed : Bool
  rest : List Char

/-- Puts a character of the content in front, with the characters that it is written with. -/
def StringBody.cons (c : Char) (written : List Char) (b : StringBody) : StringBody :=
  { b with content := c :: b.content, written := written ++ b.written }

/-- Reads the inside of a string. A backslash gives its meaning to the next character, which then stands for
itself; at the very end of the text it stands for itself. -/
def stringBody (quote : Char) : List Char → StringBody
  | [] => ⟨[], [], false, []⟩
  | c :: cs =>
    if c = '\\' then
      match cs with
      | [] => ⟨[c], [c], false, []⟩
      | d :: ds => (stringBody quote ds).cons d [c, d]
    else if c = quote then ⟨[], [c], true, cs⟩
    else (stringBody quote cs).cons c [c]

def string (quote : Char) (cs : List Char) : Lexeme :=
  let body := stringBody quote cs
  ⟨.string, body.content, quote :: body.written, body.rest⟩

/-- The first entry of a table that the text starts with. -/
def inTable (kind : TokenKind) (table : List String) (cs : List Char) : Option Lexeme :=
  (table.find? (·.toList.isPrefixOf cs)).map fun s => plain kind s.toList (cs.drop s.length)

/-- Whether a text starts with a number: a digit, or a point before a digit. -/
def startsNumber : List Char → Bool
  | '.' :: c :: _ => Number.isDigit c
  | c :: _ => Number.isDigit c
  | [] => false

/-- The lexeme at the start of a text that does not start with white space. -/
def ofChars (strict : Bool) (c : Char) (cs : List Char) : Except LexicalFault Lexeme :=
  if startsNumber (c :: cs) then .ok (number (c :: cs))
  else if c = '"' ∨ c = '\x27' then
    if strict && !(stringBody c cs).closed then .error .unterminatedString else .ok (string c cs)
  else if isIdentifierStart c then .ok (identifier (c :: cs))
  else
    match (inTable .operator operatorTable (c :: cs)).or (inTable .punctuation punctuationTable (c :: cs)) with
    | some l => .ok l
    | none => .error (.unexpectedCharacter c)

/-- Putting characters in front leaves the rest of a string as it is. -/
@[simp]
theorem rest_cons (c : Char) (written : List Char) (b : StringBody) : (b.cons c written).rest = b.rest := rfl

theorem length_rest_stringBody (quote : Char) (cs : List Char) :
    (stringBody quote cs).rest.length ≤ cs.length := by
  fun_induction stringBody quote cs <;> simp_all <;> omega

private theorem length_dropWhile_le (p : Char → Bool) (cs : List Char) :
    (cs.dropWhile p).length ≤ cs.length :=
  (List.dropWhile_sublist p).length_le

theorem length_rest_number {c : Char} {cs : List Char} (h : startsNumber (c :: cs)) :
    (number (c :: cs)).rest.length < (c :: cs).length := by
  by_cases hc : Number.isDigit c
  · have hd := length_dropWhile_le Number.isDigit cs
    simp only [number, List.dropWhile_cons_of_pos hc]
    split
    · next rest heq =>
      have := length_dropWhile_le Number.isDigit rest
      simp only [heq, List.length_cons] at hd
      simp [plain]
      omega
    · simp [plain]
      omega
  · simp only [number, List.dropWhile_cons_of_neg hc]
    split
    · next rest heq =>
      have := length_dropWhile_le Number.isDigit rest
      injection heq with _ htail
      simp [plain, htail]
      omega
    · next hne =>
      unfold startsNumber at h
      split at h
      · next heq =>
        injection heq with hdot _
        exact absurd (by rw [hdot]) (hne cs)
      · next heq =>
        injection heq with hhead _
        exact absurd (hhead ▸ h) hc
      · contradiction

/-- A mark of a table without empty entries takes at least one character. -/
theorem length_rest_inTable {kind : TokenKind} {table : List String} {c : Char} {cs : List Char} {l : Lexeme}
    (htable : ∀ s ∈ table, 0 < s.length) (h : inTable kind table (c :: cs) = some l) :
    l.rest.length < (c :: cs).length := by
  obtain ⟨s, hs, rfl⟩ := Option.map_eq_some_iff.1 h
  have := htable s (List.mem_of_find?_eq_some hs)
  simp [plain]
  omega

theorem length_rest_ofChars {strict : Bool} {c : Char} {cs : List Char} {l : Lexeme}
    (h : ofChars strict c cs = .ok l) : l.rest.length < (c :: cs).length := by
  unfold ofChars at h
  split at h
  · next hn =>
    cases h
    exact length_rest_number hn
  split at h
  · have hb := length_rest_stringBody c cs
    split at h
    · cases h
    · cases h
      simp [string]
      omega
  split at h
  · next hi =>
    cases h
    have := length_dropWhile_le isIdentifierPart cs
    have hp : isIdentifierPart c = true := by
      rcases Bool.or_eq_true_iff.1 hi with ha | hu
      · simp [isIdentifierPart, Char.isAlphanum, ha]
      · simp [isIdentifierPart, hu]
    simp [identifier, plain, List.dropWhile_cons_of_pos hp]
    omega
  split at h
  · next l' hl =>
    cases h
    rcases Option.or_eq_some_iff.1 hl with ho | ⟨_, hp⟩
    · exact length_rest_inTable (by decide) ho
    · exact length_rest_inTable (by decide) hp
  · cases h

end Lexeme

/-- The tokens of a text that starts at the given character offset, with an end marker. -/
def tokensFrom (strict : Bool) (position : Nat) (cs : List Char) : Except LexicalError (List Token) :=
  match cs with
  | [] => .ok [⟨.endOfInput, "", position⟩]
  | c :: cs =>
    if isSpace c then tokensFrom strict (position + 1) cs
    else
      match _h : Lexeme.ofChars strict c cs with
      | .error fault => .error ⟨fault, position⟩
      | .ok l => do
        let following ← tokensFrom strict (position + l.written.length) l.rest
        .ok (⟨l.kind, String.ofList l.content, position⟩ :: following)
termination_by cs.length
decreasing_by
  · simp
  · exact Lexeme.length_rest_ofChars _h

/-- The tokens of a source, ended by an end marker. In strict mode a string must have its closing quote. -/
def tokenize (strict : Bool) (source : String) : Except LexicalError (List Token) :=
  tokensFrom strict 0 source.toList

end RuleLang
