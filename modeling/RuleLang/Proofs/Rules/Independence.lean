import Mathlib
import RuleLang.Proofs.Eval.Later
import RuleLang.Rules.Rule

/-!
# Rules are judged independently

The rules of a set are judged one after the other in one context. Each evaluation leaves the counters of those before
as they were and adds one of its own, so every rule meets a later registry than the first one did, and in a later
registry an expression yields true exactly if it does in the earlier one. The violations are therefore those of the
rules that are broken when they are run alone.
-/

namespace RuleLang

/-- What is reported of a rule that is broken. -/
def Rule.violation (rule : Rule) : Violation :=
  ⟨rule.name, rule.message⟩

/-- The violations of rules, given the outcome of each. -/
def Rule.broken (outcome : Rule → Except ExecError Value) (rules : List Rule) : List Violation :=
  (rules.filter fun rule => !isTrue (outcome rule)).map Rule.violation

/-- The outcome of a source text that is run alone. -/
def Options.outcome (o : Options) (source : String) (c : Context) (r : Registry) : Except ExecError Value :=
  ((o.exec source c).run r).1

/-- The report on rules. -/
def RuleSet.report (s : RuleSet) (c : Context) (r : Registry) : Report :=
  ((s.validate c).run r).1

namespace Hosts

/-- What a source text comes to under any host functions, and the registry after it. -/
inductive Executes (hosts : Hosts) (o : Options) (c : Context) (source : String) (r : Registry) :
    Except ExecError Value → Registry → Prop
  | parse {err : SyntaxError} : o.parse source = .error err → Executes hosts o c source r (.error (.parse err)) r
  | eval {e : Expr} {outcome : Except EvalError Value} {r' : Registry} :
      o.parse source = .ok e → hosts.GivesIn o.maxDepth.toNat c e r outcome r' →
      Executes hosts o c source r (outcome.mapError .eval) r'

/-- The violations of rules that are judged one after the other, each in the registry that the one before left. -/
inductive Validates (hosts : Hosts) (o : Options) (c : Context) :
    List Rule → Registry → List Violation → Registry → Prop
  | nil (r : Registry) : Validates hosts o c [] r [] r
  | pass {rule : Rule} {rules : List Rule} {r r' r'' : Registry} {outcome : Except ExecError Value}
      {violations : List Violation} :
      hosts.Executes o c rule.expression r outcome r' → isTrue outcome = true →
      Validates hosts o c rules r' violations r'' → Validates hosts o c (rule :: rules) r violations r''
  | fail {rule : Rule} {rules : List Rule} {r r' r'' : Registry} {outcome : Except ExecError Value}
      {violations : List Violation} :
      hosts.Executes o c rule.expression r outcome r' → isTrue outcome = false →
      Validates hosts o c rules r' violations r'' →
      Validates hosts o c (rule :: rules) r (rule.violation :: violations) r''

end Hosts

section Verdict

theorem isTrue_iff {outcome : Except ExecError Value} : isTrue outcome = true ↔ outcome = .ok (.boolean true) := by
  rw [isTrue.eq_def]
  split
  · rename_i b
    cases b <;> simp
  · rename_i hother
    simp only [Bool.false_eq_true, false_iff]
    exact hother true

/-- Values that differ only in the numbers of functions are both true or both not. -/
theorem isTrue_of_alike {r : Registry} {a b : Except ExecError Value} (h : Outcome.Related (Value.AlikeSince r) a b) :
    isTrue a = isTrue b := by
  cases h with
  | error => rfl
  | ok h =>
    obtain ⟨_, _, -, hv⟩ := h
    cases hv <;> rfl

variable {outcome : Rule → Except ExecError Value} {rule : Rule} {rules : List Rule}

theorem Rule.broken_cons_pass (h : isTrue (outcome rule) = true) :
    Rule.broken outcome (rule :: rules) = Rule.broken outcome rules := by
  simp [Rule.broken, h]

theorem Rule.broken_cons_fail (h : isTrue (outcome rule) = false) :
    Rule.broken outcome (rule :: rules) = rule.violation :: Rule.broken outcome rules := by
  simp [Rule.broken, h]

theorem Rule.broken_append (rules' : List Rule) :
    Rule.broken outcome (rules ++ rules') = Rule.broken outcome rules ++ Rule.broken outcome rules' := by
  simp [Rule.broken]

theorem Rule.broken_perm {rules' : List Rule} (h : rules.Perm rules') :
    (Rule.broken outcome rules).Perm (Rule.broken outcome rules') :=
  (h.filter _).map _

theorem Rule.broken_eq_nil_iff : Rule.broken outcome rules = [] ↔ ∀ rule ∈ rules, isTrue (outcome rule) = true := by
  simp [Rule.broken]

end Verdict

namespace Hosts

variable {hosts : Hosts} {o : Options} {c : Context} {source : String} {r r' r'' : Registry}
  {out out' : Except ExecError Value} {rules : List Rule} {violations : List Violation}

/-- A source text has one outcome. -/
theorem Executes.unique (h : hosts.Executes o c source r out r') (h' : hosts.Executes o c source r out' r'') :
    out = out' := by
  cases h with
  | parse herror =>
    cases h' with
    | parse herror' =>
      rw [herror] at herror'
      cases herror'
      rfl
    | eval hparse => cases herror.symm.trans hparse
  | eval hparse hgives =>
    cases h' with
    | parse herror => cases hparse.symm.trans herror
    | eval hparse' hgives' =>
      cases hparse.symm.trans hparse'
      rw [(gives_iff.2 ⟨_, hgives⟩).unique (gives_iff.2 ⟨_, hgives'⟩)]

theorem Executes.later (h : hosts.Executes o c source r out r') : r.Later r' := by
  cases h with
  | parse => exact .refl r
  | eval _ hgives => exact hgives.later

/-- A source text that ends in a registry ends in every later one, in the same way up to the numbers that it gives. -/
theorem Executes.follow (h : hosts.Executes o c source r out r'') (hhosts : hosts.Blind r) (hc : c.KnownTo r)
    (hlater : r.Later r') :
    ∃ out' r₁, hosts.Executes o c source r' out' r₁ ∧ Outcome.Related (Value.AlikeSince r) out out' := by
  cases h with
  | parse herror => exact ⟨_, r', .parse herror, .error _⟩
  | eval hparse hgives =>
    obtain ⟨o', hgives', ho⟩ :=
      ((gives_later hhosts hlater hc).follow (gives_iff.2 ⟨_, hgives⟩)).resolve_left fun hlax => hlax.1
    obtain ⟨r₁, hgives'⟩ := gives_iff.1 hgives'
    exact ⟨_, r₁, .eval hparse hgives', ho.mapError ExecError.eval⟩

/-- If it ends in a later registry, then it does in the earlier one. -/
theorem Executes.precede (h : hosts.Executes o c source r' out' r'') (hhosts : hosts.Blind r) (hc : c.KnownTo r)
    (hlater : r.Later r') :
    ∃ out r₁, hosts.Executes o c source r out r₁ ∧ Outcome.Related (Value.AlikeSince r) out out' := by
  cases h with
  | parse herror => exact ⟨_, r, .parse herror, .error _⟩
  | eval hparse hgives =>
    obtain ⟨o₁, hgives', ho⟩ := (gives_later hhosts hlater hc).precede (gives_iff.2 ⟨_, hgives⟩)
    obtain ⟨r₁, hgives'⟩ := gives_iff.1 hgives'
    exact ⟨_, r₁, .eval hparse hgives', (ho.resolve_left fun hlax => hlax.1).mapError ExecError.eval⟩

theorem Validates.later (h : hosts.Validates o c rules r violations r') : r.Later r' := by
  induction h with
  | nil r => exact .refl r
  | pass hexec _ _ ih => exact hexec.later.trans ih
  | fail hexec _ _ ih => exact hexec.later.trans ih

/-- Rules that are judged one after the other all end when they are run alone. -/
theorem Validates.ends (h : hosts.Validates o c rules r' violations r'') (hhosts : hosts.Blind r)
    (hc : c.KnownTo r) (hlater : r.Later r') :
    ∀ rule ∈ rules, ∃ out r₁, hosts.Executes o c rule.expression r out r₁ := by
  have hhead {rule : Rule} {r₁ r₂ : Registry} {out : Except ExecError Value} (hlater : r.Later r₁)
      (h : hosts.Executes o c rule.expression r₁ out r₂) : ∃ out r₁, hosts.Executes o c rule.expression r out r₁ := by
    obtain ⟨out', r', h', -⟩ := h.precede hhosts hc hlater
    exact ⟨out', r', h'⟩
  induction h with
  | nil => exact nofun
  | pass hexec _ _ ih => exact List.forall_mem_cons.2 ⟨hhead hlater hexec, ih (hlater.trans hexec.later)⟩
  | fail hexec _ _ ih => exact List.forall_mem_cons.2 ⟨hhead hlater hexec, ih (hlater.trans hexec.later)⟩

/-- Rules that are judged in a later registry are broken if they are when they are run alone. -/
theorem Validates.eq_broken (h : hosts.Validates o c rules r' violations r'') (hhosts : hosts.Blind r)
    (hc : c.KnownTo r) (hlater : r.Later r') {outcome : Rule → Except ExecError Value}
    (halone : ∀ rule ∈ rules, ∃ r₁, hosts.Executes o c rule.expression r (outcome rule) r₁) :
    violations = Rule.broken outcome rules := by
  have hverdict {rule : Rule} {r₁ r₂ : Registry} {out : Except ExecError Value} (hlater : r.Later r₁)
      (h : hosts.Executes o c rule.expression r₁ out r₂)
      (halone : ∃ r₁, hosts.Executes o c rule.expression r (outcome rule) r₁) :
      isTrue (outcome rule) = isTrue out := by
    obtain ⟨_, halone⟩ := halone
    obtain ⟨out', _, h', halike⟩ := h.precede hhosts hc hlater
    rw [halone.unique h', isTrue_of_alike halike]
  induction h with
  | nil => rfl
  | pass hexec htrue _ ih =>
    obtain ⟨hhead, hrest⟩ := List.forall_mem_cons.1 halone
    rw [Rule.broken_cons_pass ((hverdict hlater hexec hhead).trans htrue)]
    exact ih (hlater.trans hexec.later) hrest
  | fail hexec hfalse _ ih =>
    obtain ⟨hhead, hrest⟩ := List.forall_mem_cons.1 halone
    rw [Rule.broken_cons_fail ((hverdict hlater hexec hhead).trans hfalse)]
    exact congrArg (_ :: ·) (ih (hlater.trans hexec.later) hrest)

/-- Rules that end when they are run alone can be judged one after the other. -/
theorem validates_broken (hhosts : hosts.Blind r) (hc : c.KnownTo r) (hlater : r.Later r')
    {outcome : Rule → Except ExecError Value}
    (halone : ∀ rule ∈ rules, ∃ r₁, hosts.Executes o c rule.expression r (outcome rule) r₁) :
    ∃ r'', hosts.Validates o c rules r' (Rule.broken outcome rules) r'' := by
  induction rules generalizing r' with
  | nil => exact ⟨r', .nil r'⟩
  | cons rule rules ih =>
    obtain ⟨⟨_, hhead⟩, hrest⟩ := List.forall_mem_cons.1 halone
    obtain ⟨out, r₁, hexec, halike⟩ := hhead.follow hhosts hc hlater
    have htrue : isTrue out = isTrue (outcome rule) := (isTrue_of_alike halike).symm
    obtain ⟨r'', hvalidates⟩ := ih (hlater.trans hexec.later) hrest
    cases hverdict : isTrue (outcome rule) with
    | true =>
      rw [Rule.broken_cons_pass hverdict]
      exact ⟨r'', .pass hexec (htrue.trans hverdict) hvalidates⟩
    | false =>
      rw [Rule.broken_cons_fail hverdict]
      exact ⟨r'', .fail hexec (htrue.trans hverdict) hvalidates⟩

/-- Rules are judged one after the other with exactly the violations of those broken when they are run alone. -/
theorem validates_iff (hhosts : hosts.Blind r) (hc : c.KnownTo r) :
    (∃ r', hosts.Validates o c rules r violations r') ↔
      ∃ outcome : Rule → Except ExecError Value,
        (∀ rule ∈ rules, ∃ r', hosts.Executes o c rule.expression r (outcome rule) r') ∧
        violations = Rule.broken outcome rules := by
  constructor
  · rintro ⟨r', h⟩
    have hends := h.ends hhosts hc (.refl r)
    have : Nonempty (Except ExecError Value) := ⟨.ok .null⟩
    choose! outcome halone using hends
    exact ⟨outcome, halone, h.eq_broken hhosts hc (.refl r) halone⟩
  · rintro ⟨outcome, halone, rfl⟩
    exact validates_broken hhosts hc (.refl r) halone

end Hosts

section Standard

variable {o : Options} {c : Context} {r : Registry}

theorem Hosts.standard_executes (o : Options) (source : String) (c : Context) (r : Registry) :
    Hosts.standard.Executes o c source r (o.outcome source c r) ((o.exec source c).run r).2 := by
  rw [Options.outcome, Options.exec]
  cases hparse : o.parse source with
  | error err => exact .parse hparse
  | ok e => exact .eval hparse (Hosts.standard_givesIn o.maxDepth.toNat c e r)

/-- Whether answers break a rule. -/
def Rule.fails (o : Options) (c : Context) (rule : Rule) : StateM Registry Bool := do
  return !(← rule.passes o c)

/-- The filter of a validation puts the rules that are broken, the last one first, before those that it has kept. -/
theorem Rule.filterAuxM_fails (o : Options) (c : Context) (rules kept : List Rule) (r : Registry) :
    ∃ (broken : List Rule) (r' : Registry),
      (List.filterAuxM (Rule.fails o c) rules kept).run r = (broken.reverse ++ kept, r') ∧
      Hosts.standard.Validates o c rules r (broken.map Rule.violation) r' := by
  induction rules generalizing kept r with
  | nil => exact ⟨[], r, rfl, .nil r⟩
  | cons rule rules ih =>
    have hexec := Hosts.standard_executes o rule.expression c r
    have hstep : (List.filterAuxM (Rule.fails o c) (rule :: rules) kept).run r =
        (List.filterAuxM (Rule.fails o c) rules
          (cond (!isTrue (o.outcome rule.expression c r)) (rule :: kept) kept)).run
          ((o.exec rule.expression c).run r).2 := rfl
    rw [hstep]
    cases hverdict : isTrue (o.outcome rule.expression c r) with
    | true =>
      obtain ⟨broken, r', hrest, hvalidates⟩ := ih kept ((o.exec rule.expression c).run r).2
      exact ⟨broken, r', hrest, .pass hexec hverdict hvalidates⟩
    | false =>
      obtain ⟨broken, r', hrest, hvalidates⟩ := ih (rule :: kept) ((o.exec rule.expression c).run r).2
      refine ⟨rule :: broken, r', ?_, .fail hexec hverdict hvalidates⟩
      rw [List.reverse_cons, List.append_assoc]
      exact hrest

/-- The library judges rules one after the other. -/
theorem Hosts.standard_validates (o : Options) (rules : List Rule) (c : Context) (r : Registry) :
    Hosts.standard.Validates o c rules r (RuleSet.report ⟨o, rules⟩ c r).violations
      ((RuleSet.validate ⟨o, rules⟩ c).run r).2 := by
  obtain ⟨broken, r', hfilter, hvalidates⟩ := Rule.filterAuxM_fails o c rules [] r
  have hvalidate : (RuleSet.validate ⟨o, rules⟩ c).run r = (⟨broken.map Rule.violation⟩, r') := by
    change (Report.mk (List.map Rule.violation ((List.filterAuxM (Rule.fails o c) rules []).run r).1.reverse),
      ((List.filterAuxM (Rule.fails o c) rules []).run r).2) = _
    rw [hfilter, List.append_nil, List.reverse_reverse]
  rw [RuleSet.report, hvalidate]
  exact hvalidates

/-- The violations are those of the rules that are broken when they are run alone. -/
theorem RuleSet.violations_report (o : Options) {c : Context} (hc : c.KnownTo r) (rules : List Rule) :
    (RuleSet.report ⟨o, rules⟩ c r).violations = Rule.broken (fun rule => o.outcome rule.expression c r) rules :=
  (Hosts.standard_validates o rules c r).eq_broken (Hosts.standard_blind r) hc (.refl r)
    fun rule _ => ⟨_, Hosts.standard_executes o rule.expression c r⟩

end Standard

/--
In a context whose functions are all known, closures of earlier evaluations and host functions among them, the report on
rules consists of the names and messages of the rules whose expression, run alone, does not yield true, in the order of
the rules and as often as they occur. So the violations of two lists are those of the one and then those of the other,
another order of the rules only changes the order of the violations, and a verdict is the same after whatever has been
validated before, in any context and however its rules failed. Under host functions of any kind that know and tell
apart no other functions than these, rules that end when they are run alone are judged, with the same violations.
-/
theorem RuleSet.report_eq_broken (o : Options) {c : Context} {r : Registry} (hc : c.KnownTo r) :
    (∀ rules, RuleSet.report ⟨o, rules⟩ c r = ⟨Rule.broken (fun rule => o.outcome rule.expression c r) rules⟩ ∧
      ((RuleSet.report ⟨o, rules⟩ c r).valid = true ↔
        ∀ rule ∈ rules, o.outcome rule.expression c r = .ok (.boolean true))) ∧
    (∀ rules rules', (RuleSet.report ⟨o, rules ++ rules'⟩ c r).violations =
      (RuleSet.report ⟨o, rules⟩ c r).violations ++ (RuleSet.report ⟨o, rules'⟩ c r).violations) ∧
    (∀ rules rules', rules.Perm rules' →
      (RuleSet.report ⟨o, rules⟩ c r).violations.Perm (RuleSet.report ⟨o, rules'⟩ c r).violations) ∧
    (∀ (before : RuleSet) (c' : Context) (source : String),
      isTrue (o.outcome source c ((before.validate c').run r).2) = isTrue (o.outcome source c r)) ∧
    ∀ hosts : Hosts, hosts.Blind r → ∀ rules violations,
      (∃ r', hosts.Validates o c rules r violations r') ↔
        ∃ outcome : Rule → Except ExecError Value,
          (∀ rule ∈ rules, ∃ r', hosts.Executes o c rule.expression r (outcome rule) r') ∧
          violations = Rule.broken outcome rules := by
  have hviolations := RuleSet.violations_report o hc
  refine ⟨fun rules => ⟨?_, ?_⟩, fun rules rules' => ?_, fun rules rules' hperm => ?_, fun before c' source => ?_, ?_⟩
  · exact congrArg Report.mk (hviolations rules)
  · rw [Report.valid, List.isEmpty_iff, hviolations, Rule.broken_eq_nil_iff]
    simp only [isTrue_iff]
  · rw [hviolations, hviolations, hviolations, Rule.broken_append]
  · rw [hviolations, hviolations]
    exact Rule.broken_perm hperm
  · have hlater := (Hosts.standard_validates before.options before.rules c' r).later
    obtain ⟨out, r₁, hexec, halike⟩ :=
      (Hosts.standard_executes o source c _).precede (Hosts.standard_blind r) hc hlater
    rw [← isTrue_of_alike halike, hexec.unique (Hosts.standard_executes o source c r)]
  · exact fun hosts hhosts rules violations => Hosts.validates_iff hhosts hc

/-- Rules that call a closure of an earlier evaluation, which nests too deep for its limit, by itself and through a
host function, and one that compares it with itself. -/
theorem RuleSet.report_eq_broken_deep :
    let r : Registry := ⟨[⟨2, 0⟩], 2⟩
    let body : Expr := .unary .not (.unary .not (.reference "x" []))
    let c := Context.ofList [("f", .function (.closure 1 0 "x" body [])), ("apply", .function (.host 0 .apply))]
    let deep : Rule := ⟨"deep", "nests too deep", "f(f)"⟩
    let same : Rule := ⟨"same", "is not itself", "f === f"⟩
    let outer : Rule := ⟨"outer", "nests too deep as well", "apply(f, f)"⟩
    let o : Options := {}
    c.KnownTo r ∧ o.outcome deep.expression c r = .error (.eval (.depthExceeded 2)) ∧
    RuleSet.report ⟨o, [deep, same, outer, deep]⟩ c r = ⟨[deep.violation, outer.violation, deep.violation]⟩ ∧
    (RuleSet.report ⟨o, [same]⟩ c r).valid = true ∧
    isTrue (o.outcome same.expression c ((RuleSet.validate ⟨o, [deep, outer]⟩ c).run r).2) = true ∧
    ∃ r', Hosts.standard.Validates o c [deep, same] r [deep.violation] r' := by
  intro r body c deep same outer o
  have hc : c.KnownTo r := by
    refine List.forall_mem_cons.2 ⟨.closure "x" body (by decide) (by decide) ?_, ?_⟩
    · exact fun _ h => absurd h List.not_mem_nil
    · exact List.forall_mem_singleton.2 (.host .apply (by decide))
  have hdeep : o.outcome deep.expression c r = .error (.eval (.depthExceeded 2)) := by cbv
  have hsame : o.outcome same.expression c r = .ok (.boolean true) := by cbv
  have houter : o.outcome outer.expression c r = .error (.eval (.depthExceeded 2)) := by cbv
  obtain ⟨hreport, -, -, hafter, hhosts⟩ := RuleSet.report_eq_broken o hc
  refine ⟨hc, hdeep, ?_, ?_, ?_, ?_⟩
  · rw [(hreport _).1]
    simp [Rule.broken, hdeep, hsame, houter, isTrue]
  · exact (hreport _).2.2 (List.forall_mem_singleton.2 hsame)
  · exact (hafter ⟨o, [deep, outer]⟩ c same.expression).trans (isTrue_iff.2 hsame)
  · refine (hhosts _ (Hosts.standard_blind r) _ _).2 ⟨fun rule => o.outcome rule.expression c r, ?_, ?_⟩
    · exact fun rule _ => ⟨_, Hosts.standard_executes o rule.expression c r⟩
    · simp [Rule.broken, hdeep, hsame, isTrue]

end RuleLang
