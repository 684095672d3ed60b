import RuleLang.Json.Record

/-!
# Engine options

How deep expressions and evaluations may nest, and whether a string must be closed. Options can be kept as a
JSON record, in which a missing field has its default.
-/

namespace RuleLang

structure Options where
  maxDepth : UInt64 := 256
  strictStrings : Bool := false
deriving DecidableEq, Repr

namespace Options

def toJson (o : Options) : Json :=
  .object [("max_depth", .integer o.maxDepth.toNat), ("strict_strings", .boolean o.strictStrings)]

/-- The options of a JSON record. A field of the wrong type, null included, is refused. -/
def ofJson? (j : Json) : Option Options :=
  if j.isRecord 2 then do
    let maxDepth ← j.fieldOr ({} : Options).maxDepth Json.toWord? 0 "max_depth"
    let strictStrings ← j.fieldOr ({} : Options).strictStrings Json.toBool? 1 "strict_strings"
    return { maxDepth, strictStrings }
  else none

end Options

end RuleLang
