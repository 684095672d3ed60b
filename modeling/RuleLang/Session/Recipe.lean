import RuleLang.Engine

/-!
# Recipes for values

A recipe describes a value that a host program builds before it hands it over. Building is where functions
come into being: each mention of a host function or of a lambda makes a new one, while a slot gives the value
that was stored in it, the same function if it is one.
-/

namespace RuleLang

/-- A description of a value. -/
inductive Recipe where
  | null
  | boolean (b : Bool)
  | number (x : Float)
  | string (s : String)
  | list (items : List Recipe)
  | map (entries : List (String × Recipe))
  | host (behaviour : HostFunction)
  /-- The value of a source in the empty context under the default options. -/
  | lambda (source : String)
  /-- The value in a slot, null if it is empty. -/
  | slot (name : String)

namespace Recipe

/-- The building of values: it makes functions, and fails if the source of a lambda does. -/
abbrev Build := ExceptT ExecError (StateM Registry)

mutual

def build (slots : Entries Value) : Recipe → Build Value
  | .null => return .null
  | .boolean b => return .boolean b
  | .number x => return .number x
  | .string s => return .string s
  | .list items => return .list (← buildItems slots items)
  | .map entries => return .map (Entries.ofList (← buildEntries slots entries))
  | .host behaviour => return .function (← Registry.newHost behaviour)
  | .lambda source => ExceptT.mk (({} : Options).exec source .empty)
  | .slot name => return (slots.get? name).getD .null

def buildItems (slots : Entries Value) : List Recipe → Build (List Value)
  | [] => return []
  | r :: rs => return (← build slots r) :: (← buildItems slots rs)

def buildEntries (slots : Entries Value) : List (String × Recipe) → Build (List (String × Value))
  | [] => return []
  | (name, r) :: rest => return (name, ← build slots r) :: (← buildEntries slots rest)

end

end Recipe

end RuleLang
