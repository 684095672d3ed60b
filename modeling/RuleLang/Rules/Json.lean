import RuleLang.Rules.Rule

/-!
# Rule sets in JSON

A rule set is kept as a JSON record of its options and its rules, which may both be missing. A rule is a record
of three texts, and none may be missing.
-/

namespace RuleLang

namespace Rule

def toJson (r : Rule) : Json :=
  .object [("name", .string r.name), ("message", .string r.message), ("expression", .string r.expression)]

def ofJson? (j : Json) : Option Rule :=
  if j.isRecord 3 then do
    let name ← j.readField? Json.toText? 0 "name"
    let message ← j.readField? Json.toText? 1 "message"
    let expression ← j.readField? Json.toText? 2 "expression"
    return { name, message, expression }
  else none

end Rule

namespace RuleSet

def toJson (s : RuleSet) : Json :=
  .object [("options", s.options.toJson), ("rules", .array (s.rules.map Rule.toJson))]

def rulesOfJson? (j : Json) : Option (List Rule) :=
  j.toItems?.bind fun items => items.mapM Rule.ofJson?

def ofJson? (j : Json) : Option RuleSet :=
  if j.isRecord 2 then do
    let options ← j.fieldOr {} Options.ofJson? 0 "options"
    let rules ← j.fieldOr [] rulesOfJson? 1 "rules"
    return { options, rules }
  else none

end RuleSet

end RuleLang
