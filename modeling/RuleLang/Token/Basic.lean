/-!
# Tokens

The words of the expression language. A token records where it starts, counted in characters.
-/

namespace RuleLang

/-- The kinds of token; `endOfInput` marks the end of a source. -/
inductive TokenKind where
  | number
  | string
  | identifier
  | operator
  | punctuation
  | endOfInput
deriving DecidableEq, Repr

/-- A token. The text of a string token is its content, without quotes and escapes. -/
structure Token where
  kind : TokenKind
  text : String
  position : Nat
deriving DecidableEq, Repr

namespace Token

def isOperator (t : Token) (symbol : String) : Bool :=
  t.kind == .operator && t.text == symbol

def isPunctuation (t : Token) (mark : String) : Bool :=
  t.kind == .punctuation && t.text == mark

theorem isOperator_iff {t : Token} {symbol : String} :
    t.isOperator symbol ↔ t.kind = .operator ∧ t.text = symbol := by
  simp [isOperator]

theorem isPunctuation_iff {t : Token} {mark : String} :
    t.isPunctuation mark ↔ t.kind = .punctuation ∧ t.text = mark := by
  simp [isPunctuation]

theorem isOperator_ne {t : Token} {shown : String} (symbol : String) (h : t.isOperator shown)
    (hne : shown ≠ symbol) : t.isOperator symbol = false := by
  simp [isOperator, (isOperator_iff.1 h).2, hne]

theorem isPunctuation_ne {t : Token} {shown : String} (mark : String) (h : t.isPunctuation shown)
    (hne : shown ≠ mark) : t.isPunctuation mark = false := by
  simp [isPunctuation, (isPunctuation_iff.1 h).2, hne]

theorem isOperator_of_kind {t : Token} (symbol : String) (h : t.kind ≠ .operator) :
    t.isOperator symbol = false := by
  simp [isOperator, h]

theorem isPunctuation_of_kind {t : Token} (mark : String) (h : t.kind ≠ .punctuation) :
    t.isPunctuation mark = false := by
  simp [isPunctuation, h]

/-- The position just after a token whose text is written out in full. -/
def endPosition (t : Token) : Nat :=
  t.position + t.text.length

end Token

end RuleLang
