/-!
# Quoted text

A text is quoted with double quotes. Inside, a double quote and a backslash are written after a backslash;
every other character, line breaks included, stands for itself.
-/

namespace RuleLang.Text

/-- The inside of a quoted text. -/
def escapeChars : List Char → List Char
  | [] => []
  | c :: cs => if c = '"' ∨ c = '\\' then '\\' :: c :: escapeChars cs else c :: escapeChars cs

def quote (s : String) : String :=
  String.ofList ('"' :: escapeChars s.toList ++ ['"'])

end RuleLang.Text
