/-!
# Evaluations and their counters

An evaluation may nest expressions only to its limit. Closures take part: the body of a closure belongs to the
evaluation that made the closure, and its depth there goes on from the innermost call of that evaluation that is
under way. So every evaluation has a counter, which holds the depth of that call, and which outlives the
evaluation together with its closures. A registry keeps the evaluations there have been, by number, and counts
the functions made so far, so that every new one gets a number of its own.
-/

namespace RuleLang

/-- An evaluation: how deep it may nest, and the depth of its innermost call under way, zero without one. -/
structure Evaluation where
  limit : Nat
  depth : Nat
deriving DecidableEq, Repr

abbrev Evaluations := List Evaluation

namespace Evaluations

/-- The evaluation with a number; one that was never started may not nest at all. -/
def get (es : Evaluations) (k : Nat) : Evaluation :=
  es.getD k ⟨0, 0⟩

def setDepth (es : Evaluations) (k depth : Nat) : Evaluations :=
  es.modify k fun e => { e with depth := depth }

/-- All levels that the limits allow together. -/
def capacity (es : Evaluations) : Nat :=
  es.foldr (fun e n => e.limit + n) 0

end Evaluations

/-- The evaluations started so far, and how many functions were made. -/
structure Registry where
  evaluations : Evaluations
  functions : Nat
deriving DecidableEq, Repr

namespace Registry

def empty : Registry := ⟨[], 0⟩

def setDepth (r : Registry) (k depth : Nat) : Registry :=
  { r with evaluations := r.evaluations.setDepth k depth }

end Registry

end RuleLang
