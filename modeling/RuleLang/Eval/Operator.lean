import RuleLang.Context
import RuleLang.Number.Arithmetic
import RuleLang.Value.Order

/-!
# What the operators and paths compute

The operators on values that are already computed, and the steps of a path through lists and maps.
-/

namespace RuleLang

def UnaryOp.apply : UnaryOp → Value → Except EvalError Value
  | .neg, .number x => .ok (.number (-x))
  | .neg, v => .error (.operand v.kind)
  | .not, v => .ok (.boolean !v.truthy)

namespace BinaryOp

/-- The function on numbers that an operator of arithmetic stands for. -/
def arithmetic? : BinaryOp → Option (Float → Float → Float)
  | .add => some (· + ·)
  | .sub => some (· - ·)
  | .mul => some (· * ·)
  | .div => some (· / ·)
  | .mod => some Number.remainder
  | _ => none

/-- The truth value that an operator other than those of arithmetic gives. -/
def holds (op : BinaryOp) (v w : Value) : Bool :=
  match op with
  | .or => v.truthy || w.truthy
  | .and => v.truthy && w.truthy
  | .eq => v.looseEquals w
  | .ne => !v.looseEquals w
  | .strictEq => v.strictEquals w
  | .strictNe => !v.strictEquals w
  | .lt => v.order w == .lt
  | .gt => v.order w == .gt
  | .le => v.order w != .gt
  | .ge => v.order w != .lt
  | _ => false

def apply (op : BinaryOp) (v w : Value) : Except EvalError Value :=
  match op.arithmetic? with
  | none => .ok (.boolean (op.holds v w))
  | some f =>
    match v, w with
    | .number x, .number y => .ok (.number (f x y))
    | v, w => .error (.operands op v.kind w.kind)

end BinaryOp

namespace Value

def property? (v : Value) (name : String) : Option Value :=
  match v with
  | .map entries => Entries.get? name entries
  | _ => none

/-- A number as an index: finite, truncated toward zero, and then not negative. -/
def index? (v : Value) : Option Nat :=
  match v with
  | .number x => if x.isFinite && -1 < x then some (Number.truncate x) else none
  | _ => none

def item? (v index : Value) : Option Value :=
  match v with
  | .list items => index.index?.bind fun i => items[i]?
  | _ => none

end Value

end RuleLang
