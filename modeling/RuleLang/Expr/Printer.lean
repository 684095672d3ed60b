import RuleLang.Expr.Basic
import RuleLang.Number.Layout
import RuleLang.Text.Quoted

/-!
# The canonical text of an expression

Every operator with two or three operands stands in parentheses with single spaces around it, every other
expression stands as it is. A lambda extends as far to the right as it can, so its body needs no parentheses
and gets none.
-/

namespace RuleLang

mutual

def Expr.chars : Expr → List Char
  | .number x => (Number.text x).toList
  | .string s => (Text.quote s).toList
  | .reference root segments => root.toList ++ Expr.segmentChars segments
  | .unary op operand => op.symbol.toList ++ operand.chars
  | .binary op left right =>
    '(' :: left.chars ++ ' ' :: op.symbol.toList ++ ' ' :: right.chars ++ [')']
  | .ternary condition yes no =>
    '(' :: condition.chars ++ ' ' :: '?' :: ' ' :: yes.chars ++ ' ' :: ':' :: ' ' :: no.chars ++ [')']
  | .call name args => name.toList ++ '(' :: Expr.argChars args ++ [')']
  | .lambda param body => param.toList ++ ' ' :: '=' :: '>' :: ' ' :: body.chars

def Segment.chars : Segment → List Char
  | .property name => '.' :: name.toList
  | .index e => '[' :: e.chars ++ [']']

def Expr.segmentChars : List Segment → List Char
  | [] => []
  | s :: ss => s.chars ++ Expr.segmentChars ss

/-- The canonical text of arguments, with a comma and a space between them. -/
def Expr.argChars : List Expr → List Char
  | [] => []
  | [e] => e.chars
  | e :: es => e.chars ++ ',' :: ' ' :: Expr.argChars es

end

def Expr.text (e : Expr) : String :=
  String.ofList e.chars

/-- The text of a path, by which a call names its callee. -/
def pathText (root : String) (segments : List Segment) : String :=
  String.ofList (root.toList ++ Expr.segmentChars segments)

end RuleLang
