import RuleLang.Text.CaseTable

/-!
# Upper and lower case of a text

A text is mapped character by character, and one character may become several. A single rule looks at the
neighbours: a capital sigma becomes a final sigma at the end of a word, that is, when the nearest character
before it that is not case-ignorable is a letter with a case and the nearest one after it is not.
-/

namespace RuleLang.Text

/-- The image of a code point under a table of runs and expansions; a character outside both stays as it is. -/
def mapCase (runs : List CaseRun) (expansions : List (Nat × List Nat)) (c : Char) : List Char :=
  match expansions.lookup c.toNat with
  | some image => image.map Char.ofNat
  | none =>
    match runs.find? (·.contains c.toNat) with
    | some r => [Char.ofNat (r.apply c.toNat)]
    | none => [c]

def inRanges (ranges : List (Nat × Nat)) (c : Char) : Bool :=
  ranges.any fun (first, last) => first ≤ c.toNat && c.toNat ≤ last

def isCased (c : Char) : Bool :=
  inRanges casedRanges c

/-- Whether a character is passed over when the end of a word is looked for. -/
def isCaseIgnorable (c : Char) : Bool :=
  inRanges caseIgnorableLow c || inRanges caseIgnorableMiddle c || inRanges caseIgnorableHigh c

/-- Whether the first character that is not case-ignorable has a case. -/
def meetsCased (cs : List Char) : Bool :=
  match cs.dropWhile isCaseIgnorable with
  | c :: _ => isCased c
  | [] => false

def upper (s : String) : String :=
  String.ofList (s.toList.flatMap (mapCase upperRuns upperExpansions))

/-- The lower case of characters that follow `before`, which is held nearest first. -/
def lowerChars (before : List Char) : List Char → List Char
  | [] => []
  | 'Σ' :: after =>
    (if meetsCased before && !meetsCased after then 'ς' else 'σ') :: lowerChars ('Σ' :: before) after
  | c :: after => mapCase lowerRuns lowerExpansions c ++ lowerChars (c :: before) after

def lower (s : String) : String :=
  String.ofList (lowerChars [] s.toList)

end RuleLang.Text
