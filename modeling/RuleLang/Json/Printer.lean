import RuleLang.Json.Basic
import RuleLang.Number.Layout

/-!
# The text of a JSON value

Compact JSON: no spaces, members in their order. In a string the quote, the backslash and the control
characters below U+0020 are escaped, the common ones by a letter and the others by four hexadecimal digits. A
number that is not finite has no JSON form and is written `null`.
-/

namespace RuleLang.Json

def hexDigit (n : Nat) : Char :=
  if n < 10 then Char.ofNat ('0'.toNat + n) else Char.ofNat ('a'.toNat + (n - 10))

def charText (c : Char) : List Char :=
  if c = '"' then ['\\', '"']
  else if c = '\\' then ['\\', '\\']
  else if c = '\x08' then ['\\', 'b']
  else if c = '\t' then ['\\', 't']
  else if c = '\n' then ['\\', 'n']
  else if c = '\x0c' then ['\\', 'f']
  else if c = '\r' then ['\\', 'r']
  else if c.toNat < 0x20 then ['\\', 'u', '0', '0', hexDigit (c.toNat / 16), hexDigit (c.toNat % 16)]
  else [c]

def stringText (s : String) : List Char :=
  '"' :: s.toList.flatMap charText ++ ['"']

def integerText (n : Int) : List Char :=
  if n < 0 then '-' :: Number.digitChars n.natAbs else Number.digitChars n.natAbs

def fractionText (x : Float) : List Char :=
  match Number.Dyadic.ofFloat? x with
  | some d => Number.Layout.json.chars d
  | none => "null".toList

mutual

def chars : Json → List Char
  | .null => "null".toList
  | .boolean b => (if b then "true" else "false").toList
  | .integer n => integerText n
  | .fraction x => fractionText x
  | .string s => stringText s
  | .array items => '[' :: itemChars items ++ [']']
  | .object members => '\x7b' :: memberChars members ++ ['\x7d']

def itemChars : List Json → List Char
  | [] => []
  | [j] => chars j
  | j :: js => chars j ++ ',' :: itemChars js

/-- The members of an object, with commas between them. -/
def memberChars : List (String × Json) → List Char
  | [] => []
  | [(name, j)] => stringText name ++ ':' :: chars j
  | (name, j) :: rest => stringText name ++ ':' :: chars j ++ ',' :: memberChars rest

end

def text (j : Json) : String :=
  String.ofList j.chars

end RuleLang.Json
