/-!
# Expressions

The trees that the parser builds and the evaluator walks, with their operators.
-/

namespace RuleLang

inductive UnaryOp where
  | neg
  | not
deriving DecidableEq, Repr

def UnaryOp.symbol : UnaryOp → String
  | .neg => "-"
  | .not => "!"

inductive BinaryOp where
  | or | and
  | eq | ne | strictEq | strictNe
  | lt | gt | le | ge
  | add | sub
  | mul | div | mod
deriving DecidableEq, Repr

namespace BinaryOp

def all : List BinaryOp :=
  [.or, .and, .eq, .ne, .strictEq, .strictNe, .lt, .gt, .le, .ge, .add, .sub, .mul, .div, .mod]

def symbol : BinaryOp → String
  | .or => "||"
  | .and => "&&"
  | .eq => "=="
  | .ne => "!="
  | .strictEq => "==="
  | .strictNe => "!=="
  | .lt => "<"
  | .gt => ">"
  | .le => "<="
  | .ge => ">="
  | .add => "+"
  | .sub => "-"
  | .mul => "*"
  | .div => "/"
  | .mod => "%"

def ofSymbol? (s : String) : Option BinaryOp :=
  all.find? (·.symbol == s)

@[simp]
theorem ofSymbol?_symbol (op : BinaryOp) : ofSymbol? op.symbol = some op := by
  cases op <;> decide

theorem symbol_of_ofSymbol? {s : String} {op : BinaryOp} (h : ofSymbol? s = some op) : op.symbol = s := by
  simpa using List.find?_some h

/-- How tightly an operator binds, from 1 to 6. -/
def precedence : BinaryOp → Nat
  | .or => 1
  | .and => 2
  | .eq | .ne | .strictEq | .strictNe => 3
  | .lt | .gt | .le | .ge => 4
  | .add | .sub => 5
  | .mul | .div | .mod => 6

end BinaryOp

mutual

/-- An expression. A call is named by the text of the path before its arguments. -/
inductive Expr where
  | number (value : Float)
  | string (text : String)
  | reference (root : String) (segments : List Segment)
  | unary (op : UnaryOp) (operand : Expr)
  | binary (op : BinaryOp) (left right : Expr)
  | ternary (condition yes no : Expr)
  | call (name : String) (args : List Expr)
  | lambda (param : String) (body : Expr)

/-- A step of a path: a property by name, or a list element by index. -/
inductive Segment where
  | property (name : String)
  | index (index : Expr)

end

instance : Inhabited Expr := ⟨.number 0⟩

mutual

/-- Whether two expressions are the same tree, with numbers compared as numbers: `0` and `-0` are the same, and
a NaN differs from itself. -/
def Expr.same : Expr → Expr → Bool
  | .number x, .number y => x == y
  | .string s, .string t => s == t
  | .reference r xs, .reference s ys => r == s && Expr.sameSegments xs ys
  | .unary o x, .unary p y => o == p && Expr.same x y
  | .binary o x y, .binary p x' y' => o == p && Expr.same x x' && Expr.same y y'
  | .ternary c x y, .ternary c' x' y' => Expr.same c c' && Expr.same x x' && Expr.same y y'
  | .call f xs, .call g ys => f == g && Expr.sameArgs xs ys
  | .lambda x b, .lambda y c => x == y && Expr.same b c
  | _, _ => false

def Expr.sameSegments : List Segment → List Segment → Bool
  | [], [] => true
  | s :: ss, t :: ts => Segment.same s t && Expr.sameSegments ss ts
  | _, _ => false

def Segment.same : Segment → Segment → Bool
  | .property x, .property y => x == y
  | .index x, .index y => Expr.same x y
  | _, _ => false

def Expr.sameArgs : List Expr → List Expr → Bool
  | [], [] => true
  | x :: xs, y :: ys => Expr.same x y && Expr.sameArgs xs ys
  | _, _ => false

end

end RuleLang
