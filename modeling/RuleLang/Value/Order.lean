import RuleLang.Value.Basic

/-!
# Order of values

Numbers are ordered as numbers and strings by their characters. Any other two values, and a NaN with anything,
count as equal.
-/

namespace RuleLang.Value

def order : Value → Value → Ordering
  | .number x, .number y => if x < y then .lt else if y < x then .gt else .eq
  | .string s, .string t => if s < t then .lt else if t < s then .gt else .eq
  | _, _ => .eq

end RuleLang.Value
