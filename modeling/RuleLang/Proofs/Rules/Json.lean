import Mathlib.Logic.Relation
import RuleLang.Proofs.Json.Record
import RuleLang.Rules.Json

/-!
# Rule sets kept in JSON

A rule set that is stored and loaded is the same rule set. A stored rule set may be written in other ways: members under
names that are no fields may come in at every level, and what has a default may be left out while it holds it. All of
these ways load alike. The texts of a rule have no default, and null is never one, so that a rule without one of its
texts and a field that is null are refused wherever they stand.
-/

namespace RuleLang

section Fields

def Options.fields : List String := ["max_depth", "strict_strings"]

def Rule.fields : List String := ["name", "message", "expression"]

def RuleSet.fields : List String := ["options", "rules"]

/-- Whether a field of options holds its default. -/
def Options.HoldsDefault (name : String) (j : Json) : Prop :=
  (name = "max_depth" ∧ j.toWord? = some ({} : Options).maxDepth) ∨
    (name = "strict_strings" ∧ j.toBool? = some ({} : Options).strictStrings)

/-- Whether a field of a rule set holds its default. Default options may be written in any way. -/
def RuleSet.HoldsDefault (name : String) (j : Json) : Prop :=
  (name = "options" ∧ Options.ofJson? j = some {}) ∨ (name = "rules" ∧ rulesOfJson? j = some [])

/-- One change to a rule set in JSON that says nothing new: at the top, in its options or in one of its rules. -/
inductive RuleSet.Respells : Json → Json → Prop
  | top {j j' : Json} : Json.Respells RuleSet.fields RuleSet.HoldsDefault j j' → Respells j j'
  | options {j j' : Json} :
      Json.Within "options" (Json.Respells Options.fields Options.HoldsDefault) j j' → Respells j j'
  | rule {j j' : Json} :
      Json.Within "rules" (Json.InItem (Json.Respells Rule.fields fun _ _ => False)) j j' → Respells j j'

/-- One change to a rule set in JSON that cannot be made good: a field becomes null, at the top, in the options or in a
rule, or a rule loses one of its fields. -/
inductive RuleSet.Spoils : Json → Json → Prop
  | top {j j' : Json} : Json.Nulls RuleSet.fields j j' → Spoils j j'
  | options {j j' : Json} : Json.Within "options" (Json.Nulls Options.fields) j j' → Spoils j j'
  | rule {j j' : Json} : Json.Within "rules" (Json.InItem (Json.Nulls Rule.fields)) j j' → Spoils j j'
  | text {j j' : Json} : Json.Within "rules" (Json.InItem (Json.Loses Rule.fields)) j j' → Spoils j j'

end Fields

section Options

variable {j j' : Json}

theorem Json.toWord?_integer_toNat (n : UInt64) : Json.toWord? (.integer n.toNat) = some n := by
  have hword : 0 ≤ (n.toNat : Int) ∧ (n.toNat : Int) < UInt64.size :=
    ⟨Int.natCast_nonneg _, by exact_mod_cast n.toNat_lt⟩
  rw [Json.toWord?, if_pos hword, Int.toNat_natCast, UInt64.ofNat_toNat]

theorem Options.ofJson?_toJson (o : Options) : Options.ofJson? o.toJson = some o := by
  have hdepth : o.toJson.fieldOr ({} : Options).maxDepth Json.toWord? 0 "max_depth" = some o.maxDepth :=
    Json.toWord?_integer_toNat o.maxDepth
  have hstrict : o.toJson.fieldOr ({} : Options).strictStrings Json.toBool? 1 "strict_strings" =
      some o.strictStrings := rfl
  rw [Options.ofJson?, hdepth, hstrict]
  rfl

theorem Options.ofJson?_respells (h : Json.Respells Options.fields Options.HoldsDefault j j') :
    Options.ofJson? j' = Options.ofJson? j := by
  have hdepth (k : Json) (hk : Options.HoldsDefault "max_depth" k) :
      k.toWord? = some ({} : Options).maxDepth :=
    (hk.resolve_right fun h => absurd h.1 (by decide)).2
  have hstrict (k : Json) (hk : Options.HoldsDefault "strict_strings" k) :
      k.toBool? = some ({} : Options).strictStrings :=
    (hk.resolve_left fun h => absurd h.1 (by decide)).2
  rw [Options.ofJson?, Options.ofJson?, h.isRecord, h.fieldOr (by decide) hdepth, h.fieldOr (by decide) hstrict]

/-- Options with a field that is null are refused. -/
theorem Options.ofJson?_nulls (h : Json.Nulls Options.fields j j') : Options.ofJson? j' = none := by
  obtain ⟨place, name, hname, hnull⟩ := h.field?
  match place, hname with
  | 0, rfl =>
    rw [Options.ofJson?, Json.fieldOr_of_field? hnull]
    split
    · rfl
    · rfl
  | 1, rfl =>
    have hstrict : j'.fieldOr ({} : Options).strictStrings Json.toBool? 1 "strict_strings" = none :=
      Json.fieldOr_of_field? hnull
    rw [Options.ofJson?, hstrict]
    split
    · cases j'.fieldOr ({} : Options).maxDepth Json.toWord? 0 "max_depth" <;> rfl
    · rfl

end Options

section Rule

variable {j j' : Json}

theorem Rule.ofJson?_toJson (rule : Rule) : Rule.ofJson? rule.toJson = some rule := rfl

theorem Rule.ofJson?_respells (h : Json.Respells Rule.fields (fun _ _ => False) j j') :
    Rule.ofJson? j' = Rule.ofJson? j := by
  have hnone (k : Json) : ¬False := id
  rw [Rule.ofJson?, Rule.ofJson?, h.isRecord, h.readField? (by decide) hnone, h.readField? (by decide) hnone,
    h.readField? (by decide) hnone]

/-- A rule is refused if one of its texts cannot be read. -/
theorem Rule.ofJson?_eq_none {place : Nat} {name : String} (hname : Rule.fields[place]? = some name)
    (h : j.readField? Json.toText? place name = none) : Rule.ofJson? j = none := by
  rw [Rule.ofJson?]
  split
  · match place, hname with
    | 0, rfl =>
      rw [h]
      rfl
    | 1, rfl =>
      rw [h]
      cases j.readField? Json.toText? 0 "name" <;> rfl
    | 2, rfl =>
      rw [h]
      cases j.readField? Json.toText? 0 "name" with
      | none => rfl
      | some _ => cases j.readField? Json.toText? 1 "message" <;> rfl
  · rfl

theorem Rule.ofJson?_nulls (h : Json.Nulls Rule.fields j j') : Rule.ofJson? j' = none := by
  obtain ⟨place, name, hname, hnull⟩ := h.field?
  refine Rule.ofJson?_eq_none hname ?_
  rw [Json.readField?, hnull]
  rfl

theorem Rule.ofJson?_loses (h : Json.Loses Rule.fields j j') : Rule.ofJson? j' = none := by
  obtain ⟨place, name, hname, hmissing⟩ := h.field?
  refine Rule.ofJson?_eq_none hname ?_
  rw [Json.readField?, hmissing]
  rfl

end Rule

namespace RuleSet

section Rules

variable {j j' : Json} {R : Json → Json → Prop}

theorem rulesOfJson?_toJson (rules : List Rule) : rulesOfJson? (.array (rules.map Rule.toJson)) = some rules := by
  show (rules.map Rule.toJson).mapM Rule.ofJson? = some rules
  induction rules with
  | nil => rfl
  | cons rule rules ih =>
    rw [List.map_cons, List.mapM_cons, Rule.ofJson?_toJson, ih]
    rfl

/-- Rules are read as they were if each of them is. -/
theorem rulesOfJson?_inItem (h : Json.InItem R j j') (hR : ∀ k k', R k k' → Rule.ofJson? k' = Rule.ofJson? k) :
    rulesOfJson? j' = rulesOfJson? j := by
  cases h with
  | @mk front back k k' hk =>
    show (front ++ k' :: back).mapM Rule.ofJson? = (front ++ k :: back).mapM Rule.ofJson?
    rw [List.mapM_append, List.mapM_append, List.mapM_cons, List.mapM_cons, hR k k' hk]

/-- One rule that is refused is enough. -/
theorem rulesOfJson?_eq_none (h : Json.InItem R j j') (hR : ∀ k k', R k k' → Rule.ofJson? k' = none) :
    rulesOfJson? j' = none := by
  cases h with
  | @mk front back k k' hk =>
    show (front ++ k' :: back).mapM Rule.ofJson? = none
    rw [List.mapM_append, List.mapM_cons, hR k k' hk]
    cases front.mapM Rule.ofJson? <;> rfl

end Rules

section Sets

variable {j j' : Json}

theorem ofJson?_toJson (s : RuleSet) : ofJson? s.toJson = some s := by
  have hoptions : s.toJson.fieldOr {} Options.ofJson? 0 "options" = some s.options :=
    Options.ofJson?_toJson s.options
  have hrules : s.toJson.fieldOr [] rulesOfJson? 1 "rules" = some s.rules := rulesOfJson?_toJson s.rules
  rw [ofJson?, hoptions, hrules]
  rfl

theorem ofJson?_respells (h : Respells j j') : ofJson? j' = ofJson? j := by
  cases h with
  | top h =>
    have hoptions (k : Json) (hk : HoldsDefault "options" k) : Options.ofJson? k = some {} :=
      (hk.resolve_right fun h => absurd h.1 (by decide)).2
    have hrules (k : Json) (hk : HoldsDefault "rules" k) : rulesOfJson? k = some [] :=
      (hk.resolve_left fun h => absurd h.1 (by decide)).2
    rw [ofJson?, ofJson?, h.isRecord, h.fieldOr (by decide) hoptions, h.fieldOr (by decide) hrules]
  | options h =>
    rw [ofJson?, ofJson?, h.isRecord, h.fieldOr fun _ _ => Options.ofJson?_respells, h.fieldOr_of_ne (by decide)]
  | rule h =>
    have hrules (k k' : Json) (hk : Json.InItem (Json.Respells Rule.fields fun _ _ => False) k k') :
        rulesOfJson? k' = rulesOfJson? k :=
      rulesOfJson?_inItem hk fun _ _ => Rule.ofJson?_respells
    rw [ofJson?, ofJson?, h.isRecord, h.fieldOr hrules, h.fieldOr_of_ne (by decide)]

/-- A rule set is refused if its options or its rules cannot be read. -/
theorem ofJson?_eq_none
    (h : j.fieldOr {} Options.ofJson? 0 "options" = none ∨ j.fieldOr [] rulesOfJson? 1 "rules" = none) :
    ofJson? j = none := by
  rw [ofJson?]
  split
  · rcases h with h | h
    · rw [h]
      rfl
    · rw [h]
      cases j.fieldOr {} Options.ofJson? 0 "options" <;> rfl
  · rfl

theorem ofJson?_spoils (h : Spoils j j') : ofJson? j' = none := by
  refine ofJson?_eq_none ?_
  cases h with
  | top h =>
    obtain ⟨place, name, hname, hnull⟩ := h.field?
    match place, hname with
    | 0, rfl => exact .inl (Json.fieldOr_of_field? hnull)
    | 1, rfl => exact .inr (Json.fieldOr_of_field? hnull)
  | options h => exact .inl (h.fieldOr_eq_none (fun _ _ => Options.ofJson?_nulls) 0)
  | rule h =>
    exact .inr (h.fieldOr_eq_none (fun _ _ hrules => rulesOfJson?_eq_none hrules fun _ _ => Rule.ofJson?_nulls) 1)
  | text h =>
    exact .inr (h.fieldOr_eq_none (fun _ _ hrules => rulesOfJson?_eq_none hrules fun _ _ => Rule.ofJson?_loses) 1)

end Sets

/--
A rule set is read from its own JSON form, whatever its options, the number of its rules and their texts; so what is
read from a JSON value is read again from what is written of it. Members under names that are no fields may come in at
every level, and the options, the rules and each of the options may be left out while they hold their defaults, any
number of times: the same is read, or is refused as before. Where a field is null at any level, or a rule has lost its
name, its message or its expression, all is refused.
-/
theorem json_round_trip_respelled :
    (∀ s : RuleSet, ofJson? s.toJson = some s) ∧
    (∀ j s, ofJson? j = some s → ofJson? s.toJson = some s) ∧
    (∀ j j', Relation.ReflTransGen Respells j j' → ofJson? j' = ofJson? j) ∧
    ∀ j j', Spoils j j' → ofJson? j' = none := by
  refine ⟨ofJson?_toJson, fun _ s _ => ofJson?_toJson s, fun j j' h => ?_, fun _ _ => ofJson?_spoils⟩
  induction h with
  | refl => rfl
  | tail _ hstep ih => exact (ofJson?_respells hstep).trans ih

/-- A rule set of one rule, written with a version and without the option that holds its default, and again without the
message of the rule. -/
theorem json_round_trip_respelled_adult :
    let rule : Rule := ⟨"adult", "Must be at least 18", "age >= 18"⟩
    let s : RuleSet := ⟨{ maxDepth := 64 }, [rule]⟩
    let options : Json := .object [("max_depth", .integer 64)]
    let short : Json := .object [("options", options), ("version", .integer 2), ("rules", .array [rule.toJson])]
    let broken : Json := .object [("options", options), ("version", .integer 2),
      ("rules", .array [.object [("name", .string rule.name), ("expression", .string rule.expression)]])]
    ofJson? s.toJson = some s ∧ Relation.ReflTransGen Respells s.toJson short ∧ ofJson? short = some s ∧
    Spoils short broken ∧ ofJson? broken = none := by
  intro rule s options short broken
  obtain ⟨hstored, hagain, hrespells, hspoils⟩ := json_round_trip_respelled
  have homitted : Json.Respells Options.fields Options.HoldsDefault s.options.toJson options :=
    @Json.Respells.omitted _ _ [("max_depth", .integer 64), ("strict_strings", .boolean false)] "strict_strings" _ rfl
      (Or.inr ⟨rfl, rfl⟩)
  have hfirst : Respells s.toJson (.object [("options", options), ("rules", .array [rule.toJson])]) :=
    .options (.mk rfl homitted)
  have hsecond : Respells (.object [("options", options), ("rules", .array [rule.toJson])]) short :=
    .top (.unknown [("options", options)] [("rules", .array [rule.toJson])] (.integer 2) (by decide))
  have hshort : Relation.ReflTransGen Respells s.toJson short := (Relation.ReflTransGen.single hfirst).tail hsecond
  have hloses : Json.Loses Rule.fields rule.toJson
      (.object [("name", .string rule.name), ("expression", .string rule.expression)]) :=
    @Json.Loses.member _ [("name", .string rule.name), ("message", .string rule.message),
      ("expression", .string rule.expression)] "message" (by decide)
  have hbroken : Spoils short broken := .text (.mk rfl (.mk [] [] hloses))
  have hread : ofJson? short = some s := (hrespells _ _ hshort).trans (hstored s)
  exact ⟨hagain short s hread, hshort, hread, hbroken, hspoils _ _ hbroken⟩

end RuleSet

end RuleLang
