import RuleLang.Builtin.Argument

/-!
# Builtins on lists

The aggregates, and the builtins that call a function on each item. The function is asked for first, so that a
wrong second argument fails whatever the first one is. Items are visited in order, and the first call that
fails ends the visit with its error.
-/

namespace RuleLang.Builtin

/-- The sum of the numbers among the items, from left to right; without any it is `-0`. -/
def total (items : List Value) : Float :=
  (items.filterMap Value.toNumber?).foldl (· + ·) (-0.0)

/-- The sum of the numbers among the items over the count of all items; zero for the empty list. -/
def average (items : List Value) : Float :=
  if items.isEmpty then 0 else total items / Float.ofNat items.length

def itemCount (args : List Value) : Value :=
  .number (Float.ofNat (listAt args 0).length)

/-- Applies a function to the items of the first argument. -/
def onItems (f : List Value → Float) (args : List Value) : Value :=
  .number (f (listAt args 0))

section Visits

variable {m : Type → Type} [Monad m] [MonadExceptOf EvalError m] (call : Caller m)

def accepts (predicate : Function) (item : Value) : m Bool := do
  return (← call predicate [item]).truthy

def countAccepted (builtin : String) (args : List Value) : m Value := do
  let predicate ← ofExcept (functionAt builtin args 1)
  let matched ← (listAt args 0).foldlM
    (fun n item => do return if ← accepts call predicate item then n + 1 else n) 0
  return .number (Float.ofNat matched)

def keepAccepted (builtin : String) (args : List Value) : m Value := do
  let predicate ← ofExcept (functionAt builtin args 1)
  return .list (← (listAt args 0).filterM (accepts call predicate))

/-- Whether a predicate accepts some item; the first accepted item ends the visit. -/
def someAccepted (builtin : String) (args : List Value) : m Value := do
  let predicate ← ofExcept (functionAt builtin args 1)
  return .boolean (← (listAt args 0).anyM (accepts call predicate))

/-- Whether a predicate accepts every item; the first refused item ends the visit. -/
def everyAccepted (builtin : String) (args : List Value) : m Value := do
  let predicate ← ofExcept (functionAt builtin args 1)
  return .boolean (← (listAt args 0).allM (accepts call predicate))

def mapItems (builtin : String) (args : List Value) : m Value := do
  let mapper ← ofExcept (functionAt builtin args 1)
  return .list (← (listAt args 0).mapM fun item => call mapper [item])

end Visits

end RuleLang.Builtin
