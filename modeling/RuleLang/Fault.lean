/-!
# What can be wrong with a source text

A fault says what is wrong; `Located` adds the place, counted in characters from the start of the source. The
wording of each fault is in `message`, and nowhere else.
-/

namespace RuleLang

/-- A fault and the character offset at which it was found. -/
structure Located (Fault : Type) where
  fault : Fault
  position : Nat
deriving DecidableEq, Repr

inductive LexicalFault where
  | unexpectedCharacter (c : Char)
  | unterminatedString
deriving DecidableEq, Repr

inductive SyntaxFault where
  | lexical (fault : LexicalFault)
  | invalidNumber (text : String)
  | unexpectedToken (text : String)
  | unexpectedEnd
  | missingPunctuation (mark : String)
  | missingColon
  | missingProperty
  | nestedTooDeeply
deriving DecidableEq, Repr

abbrev LexicalError := Located LexicalFault

abbrev SyntaxError := Located SyntaxFault

def LexicalFault.message : LexicalFault → String
  | .unexpectedCharacter c => s!"Unexpected character '{c}'"
  | .unterminatedString => "Unterminated string literal"

def SyntaxFault.message : SyntaxFault → String
  | .lexical fault => fault.message
  | .invalidNumber text => s!"Invalid number '{text}'"
  | .unexpectedToken text => s!"Unexpected token '{text}'"
  | .unexpectedEnd => "Unexpected end of input"
  | .missingPunctuation mark => s!"Expected '{mark}'"
  | .missingColon => "Expected ':' in ternary expression"
  | .missingProperty => "Expected property name after '.'"
  | .nestedTooDeeply => "Expression nested too deeply"

def LexicalError.text (e : LexicalError) : String :=
  s!"{e.fault.message} (pos={e.position})"

/-- The wording of an error of syntax with its place. -/
def SyntaxError.text (e : SyntaxError) : String :=
  s!"{e.fault.message} (pos={e.position})"

def SyntaxError.ofLexical (e : LexicalError) : SyntaxError :=
  ⟨.lexical e.fault, e.position⟩

end RuleLang
