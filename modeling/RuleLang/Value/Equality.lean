import RuleLang.Value.Basic

/-!
# Equality of values

Numbers are compared as numbers, so that `0` equals `-0` and a NaN differs from itself; lists item by item;
maps by their keys and values whatever their order; functions by their number.
-/

namespace RuleLang.Value

mutual

def same : Value → Value → Bool
  | .null, .null => true
  | .boolean a, .boolean b => a == b
  | .number x, .number y => x == y
  | .string s, .string t => s == t
  | .list xs, .list ys => sameItems xs ys
  | .map es, .map fs => es.length == fs.length && includedIn es fs
  | .function f, .function g => f.id == g.id
  | _, _ => false

def sameItems : List Value → List Value → Bool
  | [], [] => true
  | x :: xs, y :: ys => same x y && sameItems xs ys
  | _, _ => false

/-- Whether every entry has a partner with the same key and an equal value. -/
def includedIn : List (String × Value) → List (String × Value) → Bool
  | [], _ => true
  | (key, x) :: es, fs =>
    (match Entries.get? key fs with
     | some y => same x y
     | none => false) && includedIn es fs

end

/-- The relation of the operator `==`: numbers are compared as numbers, all else by structure. -/
def looseEquals : Value → Value → Bool
  | .number x, .number y => x == y
  | v, w => same v w

/-- The relation of the operator `===`: equal values of one kind. -/
def strictEquals (v w : Value) : Bool :=
  v.kind == w.kind && same v w

end RuleLang.Value
