import RuleLang.Eval.Error
import RuleLang.Value.Equality
import RuleLang.Value.Json

/-!
# Contexts and scopes

A context binds names to values for a whole evaluation. A scope is what an expression sees at one place: the
parameters of the lambdas around it, innermost first, and then the context.
-/

namespace RuleLang

/-- Names bound to values, each once, in the order in which they were first bound. -/
structure Context where
  entries : Entries Value

namespace Context

def empty : Context := ⟨[]⟩

/-- Binds a name, in the place of an earlier binding if there is one. -/
def bind (c : Context) (name : String) (value : Value) : Context :=
  ⟨c.entries.insert name value⟩

def bindAll (c : Context) (pairs : List (String × Value)) : Context :=
  ⟨c.entries.insertAll pairs⟩

def ofList (pairs : List (String × Value)) : Context :=
  ⟨Entries.ofList pairs⟩

def get? (c : Context) (name : String) : Option Value :=
  c.entries.get? name

def size (c : Context) : Nat :=
  c.entries.length

/-- Whether two contexts bind the same names to equal values, in whatever order. -/
def same (c d : Context) : Bool :=
  Value.same (.map c.entries) (.map d.entries)

def ofJson (j : Json) : Except EvalError Context :=
  match Value.ofJson j with
  | .map entries => .ok ⟨entries⟩
  | v => .error (.context v.kind)

end Context

/-- The names that an expression sees, innermost first. -/
abbrev Scope := List (String × Value)

namespace Scope

/-- Binds a name inside a scope, which hides an outer binding of the same name. -/
def bind (scope : Scope) (name : String) (value : Value) : Scope :=
  (name, value) :: scope

/-- The value of a name: its innermost binding. -/
def lookup (scope : Scope) (name : String) : Option Value :=
  Entries.get? name scope

end Scope

def Context.scope (c : Context) : Scope :=
  c.entries

end RuleLang
