import RuleLang.Expr.Printer
import RuleLang.Proofs.Token.Spelling

/-!
# The shape of printable expressions

Which trees have a canonical text that is an expression, and which of these are read back as they are. The text
of a lambda ends in its body, which no parenthesis closes. So an operand that ends in a lambda takes in whatever
follows it, and a tree with such an operand on the left of an operator is read back as another tree.
-/

namespace RuleLang

theorem toList_pathText (root : String) (segments : List Segment) :
    (pathText root segments).toList = root.toList ++ Expr.segmentChars segments :=
  String.toList_ofList

namespace Expr

theorem argChars_cons_cons (e d : Expr) (args : List Expr) :
    argChars (e :: d :: args) = e.chars ++ ',' :: ' ' :: argChars (d :: args) := by
  rw [argChars]
  exact nofun

theorem chars_binary (op : BinaryOp) (left right : Expr) : chars (.binary op left right) =
    '(' :: (left.chars ++ (' ' :: op.symbol.toList ++ (' ' :: right.chars ++ [')']))) := by
  simp [chars]

theorem chars_ternary (condition yes no : Expr) : chars (.ternary condition yes no) =
    '(' :: (condition.chars ++ ([' ', '?'] ++
      (' ' :: yes.chars ++ ([' ', ':'] ++ (' ' :: no.chars ++ [')']))))) := by
  simp [chars]

theorem chars_call (root : String) (segments : List Segment) (args : List Expr) :
    chars (.call (pathText root segments) args) =
      (root.toList ++ segmentChars segments) ++ '(' :: (argChars args ++ [')']) := by
  simp [chars, toList_pathText]

/-- Whether the text of an expression ends in the body of a lambda. -/
def openEnded : Expr → Bool
  | .lambda _ _ => true
  | .unary _ operand => operand.openEnded
  | _ => false

mutual

/-- Trees whose names are identifiers and whose numbers are literals. A call is named by a path. -/
inductive WellFormed : Expr → Prop
  | number {x : Float} : Number.IsLiteral x → WellFormed (.number x)
  | string {s : String} : WellFormed (.string s)
  | reference {root : String} {segments : List Segment} :
      IsIdentifier root → WellFormedPath segments → (segments = [] → root ≠ "true" ∧ root ≠ "false") →
      WellFormed (.reference root segments)
  | unary {op : UnaryOp} {operand : Expr} : WellFormed operand → WellFormed (.unary op operand)
  | binary {op : BinaryOp} {left right : Expr} :
      WellFormed left → WellFormed right → WellFormed (.binary op left right)
  | ternary {condition yes no : Expr} :
      WellFormed condition → WellFormed yes → WellFormed no → WellFormed (.ternary condition yes no)
  | call {root : String} {segments : List Segment} {args : List Expr} :
      IsIdentifier root → WellFormedPath segments → WellFormedArgs args →
      WellFormed (.call (pathText root segments) args)
  | lambda {param : String} {body : Expr} : IsIdentifier param → WellFormed body → WellFormed (.lambda param body)

inductive WellFormedPath : List Segment → Prop
  | nil : WellFormedPath []
  | property {name : String} {segments : List Segment} :
      IsIdentifier name → WellFormedPath segments → WellFormedPath (.property name :: segments)
  | index {e : Expr} {segments : List Segment} :
      WellFormed e → WellFormedPath segments → WellFormedPath (.index e :: segments)

inductive WellFormedArgs : List Expr → Prop
  | nil : WellFormedArgs []
  | cons {e : Expr} {args : List Expr} : WellFormed e → WellFormedArgs args → WellFormedArgs (e :: args)

end

/-- `Within x e` says that `x` occurs in `e`: as a part, as a part of a part, or in a path whose text is the name
of a call. -/
inductive Within (x : Expr) : Expr → Prop
  | here : Within x x
  | index {root : String} {segments : List Segment} {e : Expr} :
      .index e ∈ segments → Within x e → Within x (.reference root segments)
  | operand {op : UnaryOp} {operand : Expr} : Within x operand → Within x (.unary op operand)
  | left {op : BinaryOp} {left right : Expr} : Within x left → Within x (.binary op left right)
  | right {op : BinaryOp} {left right : Expr} : Within x right → Within x (.binary op left right)
  | condition {condition yes no : Expr} : Within x condition → Within x (.ternary condition yes no)
  | yes {condition yes no : Expr} : Within x yes → Within x (.ternary condition yes no)
  | no {condition yes no : Expr} : Within x no → Within x (.ternary condition yes no)
  | callee {root : String} {segments : List Segment} {args : List Expr} :
      IsIdentifier root → WellFormedPath segments → Within x (.reference root segments) →
      Within x (.call (pathText root segments) args)
  | arg {name : String} {args : List Expr} {e : Expr} : e ∈ args → Within x e → Within x (.call name args)
  | body {param : String} {body : Expr} : Within x body → Within x (.lambda param body)

/-- Whether the operator at the root of a tree is read behind its left operand or its condition. -/
def Separated : Expr → Prop
  | .binary _ left _ => left.openEnded = false
  | .ternary condition _ _ => condition.openEnded = false
  | _ => True

/-- No operator within the tree is taken in by the lambda that comes before it. -/
def Unambiguous (e : Expr) : Prop :=
  ∀ x, Within x e → x.Separated

end Expr

end RuleLang
