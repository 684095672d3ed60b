import Mathlib
import RuleLang.Proofs.Entries
import RuleLang.Proofs.Rules.Independence
import RuleLang.Rules.Form

/-!
# Batches of named expressions

The expressions of a batch are evaluated one after the other in one context, each in the registry that the one before
left, and their results are entered under their names. A later registry changes nothing but the numbers of new
functions, and an entry given again keeps its place. So the entry of a name is what the last source text for it comes
to alone, whatever else is in the batch.
-/

namespace RuleLang

namespace Form

/-- Results with the same error, or with values that are the same but for numbers that are not in `r`. -/
structure ExpressionResult.Alike (r : Registry) (a b : ExpressionResult) : Prop where
  error : a.error = b.error
  value : Option.Rel (Value.AlikeSince r) a.value b.value

/-- What a batch has for an outcome: a value that is the same but for numbers that are not in `r`, without an error, or
else the text of the error, without a value. -/
inductive Entered (r : Registry) : Except ExecError Value → ExpressionResult → Prop
  | value {v w : Value} : v.AlikeSince r w → Entered r (.ok v) ⟨some w, none⟩
  | error (e : ExecError) : Entered r (.error e) ⟨none, some e.text⟩

/-- An outcome as a batch has it in JSON. Of its two members the one that does not apply is null. -/
def outcomeToJson : Except ExecError Value → Json
  | .ok v => .object [("value", v.toJson), ("error", .null)]
  | .error e => .object [("value", .null), ("error", .string e.text)]

/--
Results of named expressions that do not depend on one another: each name once, in the order in which the names are
first given, and for each of them the outcome of the source text that is given last for it, as `alone` says.
-/
structure Independent (r : Registry) (alone : String → Except ExecError Value → Prop)
    (expressions : List (String × String)) (results : Entries ExpressionResult) : Prop where
  names : results.names = (expressions.map Prod.fst).eraseDups
  last : ∀ name, Option.Rel (fun source result => ∃ out, alone source out ∧ Entered r out result)
    (Entries.get? name expressions.reverse) (results.get? name)
  one : ∀ name result, results.get? name = some result → result.value.isSome = result.error.isNone

end Form

namespace Hosts

open Form

/-- The results of expressions that are evaluated one after the other under any host functions. -/
inductive Reports (hosts : Hosts) (c : Context) :
    List (String × String) → Registry → List (String × ExpressionResult) → Registry → Prop
  | nil (r : Registry) : Reports hosts c [] r [] r
  | cons {name source : String} {expressions : List (String × String)} {out : Except ExecError Value}
      {reports : List (String × ExpressionResult)} {r r' r'' : Registry} :
      hosts.Executes {} c source r out r' → Reports hosts c expressions r' reports r'' →
      Reports hosts c ((name, source) :: expressions) r ((name, .ofOutcome out) :: reports) r''

/-- What a batch comes to under any host functions, and the registry after it. -/
def EvaluatesAll (hosts : Hosts) (c : Context) (expressions : List (String × String)) (r : Registry)
    (results : Entries ExpressionResult) (r' : Registry) : Prop :=
  ∃ reports, hosts.Reports c expressions r reports r' ∧ results = Entries.ofList reports

end Hosts

namespace Form

section Entered

variable {r : Registry} {a b : ExpressionResult} {out out' : Except ExecError Value}

/-- What the library makes of an outcome like another one stands for that one as well. -/
theorem Entered.of_related (h : Outcome.Related (Value.AlikeSince r) out out') : Entered r out (.ofOutcome out') := by
  cases h with
  | ok hv => exact .value hv
  | error e => exact .error e

/-- Results for one outcome are alike. -/
theorem Entered.alike (ha : Entered r out a) (hb : Entered r out b) : a.Alike r b := by
  cases ha with
  | value hv =>
    cases hb with
    | value hw => exact ⟨rfl, .some (hv.span hw)⟩
  | error e =>
    cases hb
    exact ⟨rfl, .none⟩

/-- Numbers are not shown. -/
theorem Entered.toJson_eq (h : Entered r out a) : a.toJson = outcomeToJson out := by
  cases h with
  | value hv =>
    obtain ⟨_, _, -, hv⟩ := hv
    rw [outcomeToJson, hv.toJson_eq]
    rfl
  | error e => rfl

theorem Entered.one (h : Entered r out a) : a.value.isSome = a.error.isNone := by
  cases h <;> rfl

end Entered

section Independent

variable {r : Registry} {alone : String → Except ExecError Value → Prop} {expressions : List (String × String)}

/-- Results of single source texts, entered under their names, are independent. -/
theorem Independent.of_paired {reports : List (String × ExpressionResult)}
    (h : Paired (Bound fun source result => ∃ out, alone source out ∧ Entered r out result) expressions reports) :
    Independent r alone expressions (Entries.ofList reports) := by
  have hnames : expressions.map Prod.fst = reports.map Prod.fst := by
    induction h with
    | nil => rfl
    | cons hbound _ ih =>
      cases hbound
      rw [List.map_cons, List.map_cons, ih]
  have hlast (name : String) := Entries.get?_related h.reverse name
  refine ⟨by rw [Entries.names_ofList, hnames], fun name => ?_, fun name result hresult => ?_⟩
  · rw [Entries.get?_ofList]
    exact hlast name
  · have hname := hlast name
    rw [← Entries.get?_ofList reports, hresult] at hname
    generalize Entries.get? name expressions.reverse = source at hname
    cases hname with
    | some hresult =>
      obtain ⟨out, -, hentered⟩ := hresult
      exact hentered.one

/-- The entry of a name, and the outcome that it stands for. -/
theorem Independent.entered {results : Entries ExpressionResult} {name source : String}
    (h : Independent r alone expressions results) (hsource : Entries.get? name expressions.reverse = some source) :
    ∃ out result, alone source out ∧ results.get? name = some result ∧ Entered r out result := by
  have hlast := h.last name
  rw [hsource] at hlast
  generalize results.get? name = entry at hlast ⊢
  cases hlast with
  | some hresult =>
    obtain ⟨out, halone, hentered⟩ := hresult
    exact ⟨out, _, halone, rfl, hentered⟩

theorem Independent.mono {alone' : String → Except ExecError Value → Prop} {results : Entries ExpressionResult}
    (h : Independent r alone expressions results) (hmono : ∀ source out, alone source out → alone' source out) :
    Independent r alone' expressions results where
  names := h.names
  last name := by
    have hlast := h.last name
    generalize Entries.get? name expressions.reverse = source at hlast ⊢
    generalize results.get? name = result at hlast ⊢
    cases hlast with
    | none => exact .none
    | some hresult =>
      obtain ⟨out, halone, hentered⟩ := hresult
      exact .some ⟨out, hmono _ out halone, hentered⟩
  one := h.one

/-- A source text more, under another name, changes nothing in the entry of a name. -/
theorem Independent.insert {front back : List (String × String)} {results results' : Entries ExpressionResult}
    {other source : String} (h : Independent r alone (front ++ back) results)
    (h' : Independent r alone (front ++ (other, source) :: back) results')
    (hunique : ∀ source out out', alone source out → alone source out' → out = out') {name : String}
    (hname : other ≠ name) : Option.Rel (ExpressionResult.Alike r) (results.get? name) (results'.get? name) := by
  have hlast : Entries.get? name (front ++ (other, source) :: back).reverse =
      Entries.get? name (front ++ back).reverse := by
    rw [List.reverse_append, List.reverse_append, List.reverse_cons, List.append_assoc, List.singleton_append,
      Entries.get?_append, Entries.get?_append, Entries.get?, if_neg hname]
  have hresult := h.last name
  have hresult' := h'.last name
  rw [hlast] at hresult'
  generalize Entries.get? name (front ++ back).reverse = source at hresult hresult'
  generalize results.get? name = result at hresult ⊢
  generalize results'.get? name = result' at hresult' ⊢
  cases hresult with
  | none =>
    cases hresult'
    exact .none
  | some hresult =>
    cases hresult' with
    | some hresult' =>
      obtain ⟨out, halone, hentered⟩ := hresult
      obtain ⟨out', halone', hentered'⟩ := hresult'
      cases hunique _ _ _ halone halone'
      exact .some (hentered.alike hentered')

end Independent

end Form

namespace Hosts

variable {hosts : Hosts} {c : Context} {r r' r'' : Registry} {expressions : List (String × String)}
  {reports : List (String × Form.ExpressionResult)}

/-- Each expression of a batch comes to what it comes to alone. -/
theorem Reports.alone (h : hosts.Reports c expressions r' reports r'') (hhosts : hosts.Blind r) (hc : c.KnownTo r)
    (hlater : r.Later r') :
    Paired (Bound fun source result => ∃ out, (∃ r₁, hosts.Executes {} c source r out r₁) ∧
      Form.Entered r out result) expressions reports := by
  induction h with
  | nil => exact .nil
  | cons hexec _ ih =>
    obtain ⟨out, r₁, halone, halike⟩ := hexec.precede hhosts hc hlater
    exact .cons (.mk ⟨out, ⟨r₁, halone⟩, .of_related halike⟩) (ih (hlater.trans hexec.later))

/-- Expressions that end alone end in a batch. -/
theorem exists_reports (hhosts : hosts.Blind r) (hc : c.KnownTo r) (hlater : r.Later r')
    (halone : ∀ expression ∈ expressions, ∃ out r₁, hosts.Executes {} c expression.2 r out r₁) :
    ∃ reports r'', hosts.Reports c expressions r' reports r'' := by
  induction expressions generalizing r' with
  | nil => exact ⟨[], r', .nil r'⟩
  | cons expression expressions ih =>
    obtain ⟨⟨out, r₁, hhead⟩, hrest⟩ := List.forall_mem_cons.1 halone
    obtain ⟨out', r₂, hexec, -⟩ := hhead.follow hhosts hc hlater
    obtain ⟨reports, r'', hreports⟩ := ih (hlater.trans hexec.later) hrest
    exact ⟨_, r'', .cons hexec hreports⟩

/-- A batch has an outcome exactly if every expression in it has one alone. -/
theorem evaluatesAll_iff (hhosts : hosts.Blind r) (hc : c.KnownTo r) :
    (∃ results r', hosts.EvaluatesAll c expressions r results r') ↔
      ∀ expression ∈ expressions, ∃ out r', hosts.Executes {} c expression.2 r out r' := by
  constructor
  · intro h
    obtain ⟨_, r', reports, hreports, -⟩ := h
    intro expression hexpression
    obtain ⟨_, -, hbound⟩ := (hreports.alone hhosts hc (.refl r)).exists_of_mem hexpression
    cases hbound with
    | mk h =>
      obtain ⟨out, ⟨r₁, halone⟩, -⟩ := h
      exact ⟨out, r₁, halone⟩
  · intro h
    obtain ⟨reports, r', hreports⟩ := exists_reports hhosts hc (.refl r) h
    exact ⟨_, r', reports, hreports, rfl⟩

theorem EvaluatesAll.independent {results : Entries Form.ExpressionResult}
    (h : hosts.EvaluatesAll c expressions r results r') (hhosts : hosts.Blind r) (hc : c.KnownTo r) :
    Form.Independent r (fun source out => ∃ r₁, hosts.Executes {} c source r out r₁) expressions results := by
  obtain ⟨reports, hreports, rfl⟩ := h
  exact .of_paired (hreports.alone hhosts hc (.refl r))

theorem standard_reports (c : Context) (expressions : List (String × String)) (r : Registry) :
    ∃ reports r', (expressions.mapM (Form.evaluateNamed c)).run r = (reports, r') ∧
      Hosts.standard.Reports c expressions r reports r' := by
  induction expressions generalizing r with
  | nil => exact ⟨[], r, rfl, .nil r⟩
  | cons expression expressions ih =>
    obtain ⟨name, source⟩ := expression
    obtain ⟨reports, r', hrest, hreports⟩ := ih ((({} : Options).exec source c).run r).2
    refine ⟨_, r', ?_, .cons (standard_executes {} source c r) hreports⟩
    have hstep : (((name, source) :: expressions).mapM (Form.evaluateNamed c)).run r =
        let rest := (expressions.mapM (Form.evaluateNamed c)).run ((({} : Options).exec source c).run r).2
        ((name, .ofOutcome (({} : Options).outcome source c r)) :: rest.1, rest.2) := by
      rw [List.mapM_cons]
      rfl
    rw [hstep, hrest]

/-- The library evaluates the expressions one after the other. -/
theorem standard_evaluatesAll (c : Context) (expressions : List (String × String)) (r : Registry) :
    ∃ r', Hosts.standard.EvaluatesAll c expressions r ((Form.evaluateAll c expressions).run r).1 r' := by
  obtain ⟨reports, r', hrun, hreports⟩ := standard_reports c expressions r
  have hall : ((Form.evaluateAll c expressions).run r).1 =
      Entries.ofList ((expressions.mapM (Form.evaluateNamed c)).run r).1 := rfl
  rw [hall, hrun]
  exact ⟨r', reports, hreports, rfl⟩

end Hosts

/--
In a context whose functions are all known, closures of earlier evaluations and host functions among them, a batch of
named expressions has one result for each name, in the order in which the names are first given, for the outcome that
the last source text for the name has when it is run alone. If that is a value, the result has this value, the same but
for the numbers of functions that are new, and no error; if it is an error, the result has its text, and no value. So
it is in JSON. One source text more, at any place and however it fails, changes no entry of another name. All of this
holds under host functions of any kind that know and tell apart no other functions than these; the batch then has a
result exactly if all its expressions end alone.
-/
theorem Form.evaluateAll_independent {c : Context} {r : Registry} (hc : c.KnownTo r) :
    let results (expressions : List (String × String)) := ((Form.evaluateAll c expressions).run r).1
    let alone (source : String) := ({} : Options).outcome source c r
    (∀ expressions, Form.Independent r (fun source out => alone source = out) expressions (results expressions)) ∧
    (∀ expressions name source, Entries.get? name expressions.reverse = some source →
      (∀ v, alone source = .ok v → ∃ w, v.AlikeSince r w ∧ (results expressions).get? name = some ⟨some w, none⟩) ∧
      ∀ e, alone source = .error e → (results expressions).get? name = some ⟨none, some e.text⟩) ∧
    (∀ expressions name, ((results expressions).get? name).map Form.ExpressionResult.toJson =
      (Entries.get? name expressions.reverse).map fun source => Form.outcomeToJson (alone source)) ∧
    (∀ front back other source name, other ≠ name → Option.Rel (Form.ExpressionResult.Alike r)
      ((results (front ++ back)).get? name) ((results (front ++ (other, source) :: back)).get? name)) ∧
    ∀ hosts : Hosts, hosts.Blind r →
      (∀ expressions, (∃ results r', hosts.EvaluatesAll c expressions r results r') ↔
        ∀ expression ∈ expressions, ∃ out r', hosts.Executes {} c expression.2 r out r') ∧
      (∀ expressions results r', hosts.EvaluatesAll c expressions r results r' →
        Form.Independent r (fun source out => ∃ r₁, hosts.Executes {} c source r out r₁) expressions results) ∧
      ∀ front back other source results results' r₁ r₂, hosts.EvaluatesAll c (front ++ back) r results r₁ →
        hosts.EvaluatesAll c (front ++ (other, source) :: back) r results' r₂ →
        ∀ name, other ≠ name →
          Option.Rel (Form.ExpressionResult.Alike r) (results.get? name) (results'.get? name) := by
  intro results alone
  have hindependent (expressions : List (String × String)) :
      Form.Independent r (fun source out => alone source = out) expressions (results expressions) := by
    obtain ⟨r', h⟩ := Hosts.standard_evaluatesAll c expressions r
    refine (h.independent (Hosts.standard_blind r) hc).mono fun source out hout => ?_
    obtain ⟨r₁, hout⟩ := hout
    exact (Hosts.standard_executes {} source c r).unique hout
  refine ⟨hindependent, fun expressions name source hsource => ?_, fun expressions name => ?_,
    fun front back other source name hname => ?_, fun hosts hhosts => ?_⟩
  · obtain ⟨out, result, halone, hentry, hentered⟩ := (hindependent expressions).entered hsource
    constructor
    · intro v hv
      cases hv.symm.trans halone
      cases hentered with
      | value hw => exact ⟨_, hw, hentry⟩
    · intro e he
      cases he.symm.trans halone
      cases hentered
      exact hentry
  · have hlast := (hindependent expressions).last name
    generalize Entries.get? name expressions.reverse = source at hlast ⊢
    generalize (results expressions).get? name = result at hlast ⊢
    cases hlast with
    | none => rfl
    | some hresult =>
      obtain ⟨_, rfl, hentered⟩ := hresult
      exact congrArg some hentered.toJson_eq
  · exact (hindependent _).insert (hindependent _) (fun _ _ _ h h' => h.symm.trans h') hname
  · refine ⟨fun expressions => Hosts.evaluatesAll_iff hhosts hc, fun _ _ _ h => h.independent hhosts hc, ?_⟩
    intro front back other source results results' r₁ r₂ h h' name hname
    refine (h.independent hhosts hc).insert (h'.independent hhosts hc) ?_ hname
    intro source out out' hout hout'
    obtain ⟨_, hout⟩ := hout
    obtain ⟨_, hout'⟩ := hout'
    exact hout.unique hout'

/-- A batch in which a name is given again, and a closure of an earlier evaluation nests too deep for its limit, by
itself and through a host function. -/
theorem Form.evaluateAll_independent_deep :
    let r : Registry := ⟨[⟨2, 0⟩], 2⟩
    let body : Expr := .unary .not (.unary .not (.reference "x" []))
    let c := Context.ofList [("f", .function (.closure 1 0 "x" body [])), ("apply", .function (.host 0 .apply))]
    let results (expressions : List (String × String)) := ((Form.evaluateAll c expressions).run r).1
    let batch := [("a", "f(f)"), ("b", "apply(f, f)"), ("a", "f === f")]
    let message := "Evaluation nested deeper than 2 levels"
    c.KnownTo r ∧ (results batch).names = ["a", "b"] ∧
    (results batch).get? "a" = some ⟨some (.boolean true), none⟩ ∧
    (results batch).get? "b" = some ⟨none, some message⟩ ∧
    ((results batch).get? "b").map Form.ExpressionResult.toJson =
      some (.object [("value", .null), ("error", .string message)]) ∧
    Option.Rel (Form.ExpressionResult.Alike r) ((results [("a", "f(f)"), ("a", "f === f")]).get? "a")
      ((results batch).get? "a") ∧
    ∃ results r', Hosts.standard.EvaluatesAll c batch r results r' := by
  intro r body c results batch message
  have hc : c.KnownTo r := by
    refine List.forall_mem_cons.2 ⟨.closure "x" body (by decide) (by decide) ?_, ?_⟩
    · exact fun _ h => absurd h List.not_mem_nil
    · exact List.forall_mem_singleton.2 (.host .apply (by decide))
  have hsame : ({} : Options).outcome "f === f" c r = .ok (.boolean true) := by cbv
  have houter : ({} : Options).outcome "apply(f, f)" c r = .error (.eval (.depthExceeded 2)) := by cbv
  have hmessage : ExecError.text (.eval (.depthExceeded 2)) = message := by decide
  obtain ⟨hindependent, hentries, hjson, hother, hhosts⟩ := Form.evaluateAll_independent hc
  have hfirst : (results batch).get? "a" = some ⟨some (.boolean true), none⟩ := by
    obtain ⟨w, ⟨_, _, -, hw⟩, hentry⟩ := (hentries batch "a" "f === f" (by decide)).1 _ hsame
    cases hw
    exact hentry
  have hsecond : (results batch).get? "b" = some ⟨none, some message⟩ := by
    rw [← hmessage]
    exact (hentries batch "b" "apply(f, f)" (by decide)).2 _ houter
  refine ⟨hc, (hindependent batch).names.trans (by decide), hfirst, hsecond, ?_, ?_, ?_⟩
  · rw [hjson]
    simp [batch, Entries.get?, houter, Form.outcomeToJson, hmessage]
  · exact hother [("a", "f(f)")] [("a", "f === f")] "b" "apply(f, f)" "a" (by decide)
  · refine ((hhosts _ (Hosts.standard_blind r)).1 batch).2 fun expression _ => ?_
    exact ⟨_, _, Hosts.standard_executes {} expression.2 c r⟩

end RuleLang
