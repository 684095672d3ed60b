import Mathlib
import RuleLang.Proofs.Eval.Limit
import RuleLang.Proofs.Parser.CorrectPrefix
import RuleLang.Proofs.Parser.Image
import RuleLang.Proofs.Rules.Independence
import RuleLang.Proofs.Token.Pieces

/-!
# Looser options

Options are loosened by a higher limit and by strings that need not be closed. What is read and passes under the tighter
ones does under the looser ones as well: the text has the same tokens, these have the same tree, and the evaluation,
which has not nested too deep, has the same outcome. So no rule is broken that was not.
-/

namespace RuleLang

/-- Options that allow no less than others do. -/
structure Options.Looser (o o' : Options) : Prop where
  depth_le : o.maxDepth ≤ o'.maxDepth
  strict : o'.strictStrings = false ∨ o'.strictStrings = o.strictStrings

section Looser

variable {o o' : Options} {c : Context} {source : String} {e : Expr} {r r' : Registry}

theorem Options.Looser.limit_le (h : o.Looser o') : o.maxDepth.toNat ≤ o'.maxDepth.toNat :=
  UInt64.le_iff_toNat_le.1 h.depth_le

/-- A text that is an expression stays the same one. -/
theorem Options.Looser.parse_eq_ok (h : o.Looser o') (hparse : o.parse source = .ok e) :
    o'.parse source = .ok e := by
  obtain ⟨ts, htokens, hts⟩ := Options.parse_eq_ok.1 hparse
  have htokens' : RuleLang.tokenize o'.strictStrings source = .ok ts := by
    obtain hstrict | hstrict := h.strict
    · rw [hstrict]
      exact tokensFrom_lenient htokens
    · rw [hstrict]
      exact htokens
  have hts' := Grammar.parseTokens_eq_ok.2 (reads_of_parseTokens (endPlace ts) h.limit_le hts)
  exact Options.parse_eq_ok.2 ⟨ts, htokens', hts'⟩

namespace Hosts

variable {hosts : Hosts} {out : Except ExecError Value} {rules : List Rule} {violations : List Violation}

/-- An expression that yields true still does. -/
theorem Executes.loosen (h : hosts.Executes o c source r out r') (hhosts : hosts.ReturnErrors)
    (hlooser : o.Looser o') (htrue : isTrue out = true) : ∃ r'', hosts.Executes o' c source r out r'' := by
  cases h with
  | parse => cases htrue
  | @eval e outcome _ hparse hgives =>
    cases outcome with
    | error err => cases htrue
    | ok v =>
      have hgives' := (gives_of_limit_le hhosts hlooser.limit_le).1 _ (gives_iff.2 ⟨_, hgives⟩) (not_tooDeep_ok v)
      obtain ⟨r'', hgives'⟩ := gives_iff.1 hgives'
      exact ⟨r'', .eval (hlooser.parse_eq_ok hparse) hgives'⟩

/-- An expression that ends under looser options ends under tighter ones. -/
theorem Executes.tighten (h : hosts.Executes o' c source r out r') (hhosts : hosts.ReturnErrors)
    (hlooser : o.Looser o') : ∃ out' r'', hosts.Executes o c source r out' r'' := by
  cases hparse : o.parse source with
  | error err => exact ⟨_, r, .parse hparse⟩
  | ok e =>
    have hparse' := hlooser.parse_eq_ok hparse
    cases h with
    | parse herror => cases hparse'.symm.trans herror
    | eval hok hgives =>
      cases hparse'.symm.trans hok
      obtain ⟨outcome, hgives', -⟩ := (gives_of_limit_le hhosts hlooser.limit_le).2 _ (gives_iff.2 ⟨_, hgives⟩)
      obtain ⟨r'', hgives'⟩ := gives_iff.1 hgives'
      exact ⟨_, r'', .eval hparse hgives'⟩

end Hosts

/-- If fewer rules are broken, there are fewer violations. -/
theorem Rule.broken_sublist {outcome outcome' : Rule → Except ExecError Value} {rules : List Rule}
    (h : ∀ rule ∈ rules, isTrue (outcome rule) = true → isTrue (outcome' rule) = true) :
    (Rule.broken outcome' rules).Sublist (Rule.broken outcome rules) := by
  induction rules with
  | nil => exact .slnil
  | cons rule rules ih =>
    obtain ⟨hrule, hrules⟩ := List.forall_mem_cons.1 h
    cases htrue : isTrue (outcome rule) with
    | true =>
      rw [Rule.broken_cons_pass htrue, Rule.broken_cons_pass (hrule htrue)]
      exact ih hrules
    | false =>
      rw [Rule.broken_cons_fail htrue]
      cases htrue' : isTrue (outcome' rule) with
      | true =>
        rw [Rule.broken_cons_pass htrue']
        exact (ih hrules).cons _
      | false =>
        rw [Rule.broken_cons_fail htrue']
        exact (ih hrules).cons_cons _

namespace Hosts

variable {hosts : Hosts} {rules : List Rule} {violations : List Violation}

/-- Rules that are judged under looser options are under tighter ones, with no fewer violations. -/
theorem Validates.tighten (h : hosts.Validates o' c rules r violations r') (hlooser : o.Looser o')
    (herrors : hosts.ReturnErrors) (hhosts : hosts.Blind r) (hc : c.KnownTo r) :
    ∃ violations' r'', hosts.Validates o c rules r violations' r'' ∧ violations.Sublist violations' := by
  obtain ⟨outcome', halone', rfl⟩ := (validates_iff hhosts hc).1 ⟨r', h⟩
  have halone (rule : Rule) (hrule : rule ∈ rules) : ∃ out r₁, hosts.Executes o c rule.expression r out r₁ := by
    obtain ⟨_, hexec'⟩ := halone' rule hrule
    exact hexec'.tighten herrors hlooser
  have : Nonempty (Except ExecError Value) := ⟨.ok .null⟩
  choose! outcome halone using halone
  obtain ⟨r'', hvalidates⟩ := validates_broken hhosts hc (.refl r) halone
  refine ⟨_, r'', hvalidates, Rule.broken_sublist fun rule hrule htrue => ?_⟩
  obtain ⟨_, hexec⟩ := halone rule hrule
  obtain ⟨_, hexec'⟩ := halone' rule hrule
  obtain ⟨_, hloose⟩ := hexec.loosen herrors hlooser htrue
  rw [← hloose.unique hexec']
  exact htrue

/-- Rules that are all satisfied under tighter options are under looser ones. -/
theorem Validates.loosen (h : hosts.Validates o c rules r [] r') (hlooser : o.Looser o')
    (herrors : hosts.ReturnErrors) (hhosts : hosts.Blind r) (hc : c.KnownTo r) :
    ∃ r'', hosts.Validates o' c rules r [] r'' := by
  obtain ⟨outcome, halone, hnone⟩ := (validates_iff hhosts hc).1 ⟨r', h⟩
  have htrue := Rule.broken_eq_nil_iff.1 hnone.symm
  refine (validates_iff hhosts hc).2 ⟨outcome, fun rule hrule => ?_, hnone⟩
  obtain ⟨_, hexec⟩ := halone rule hrule
  exact hexec.loosen herrors hlooser (htrue rule hrule)

end Hosts

end Looser

/--
Looser options never break a rule: the violations under a higher limit, and with strings that may be left open or are
read as before, are some of those under the tighter options, in the same order. So a report that is valid stays so.
This holds in every context, whatever closures of earlier evaluations it has, and under all host functions that fail
when a function that they call does, and that know and tell apart no other functions than those there are.
-/
theorem RuleSet.report_of_looser {o o' : Options} (hlooser : o.Looser o') {c : Context} {r : Registry}
    (hc : c.KnownTo r) (rules : List Rule) :
    (RuleSet.report ⟨o', rules⟩ c r).violations.Sublist (RuleSet.report ⟨o, rules⟩ c r).violations ∧
    ((RuleSet.report ⟨o, rules⟩ c r).valid = true → (RuleSet.report ⟨o', rules⟩ c r).valid = true) ∧
    ∀ hosts : Hosts, hosts.ReturnErrors → hosts.Blind r →
      (∀ violations' r', hosts.Validates o' c rules r violations' r' →
        ∃ violations r'', hosts.Validates o c rules r violations r'' ∧ violations'.Sublist violations) ∧
      ∀ r', hosts.Validates o c rules r [] r' → ∃ r'', hosts.Validates o' c rules r [] r'' := by
  have hsublist :
      (RuleSet.report ⟨o', rules⟩ c r).violations.Sublist (RuleSet.report ⟨o, rules⟩ c r).violations := by
    rw [RuleSet.violations_report o' hc, RuleSet.violations_report o hc]
    refine Rule.broken_sublist fun rule _ htrue => ?_
    obtain ⟨_, hloose⟩ :=
      (Hosts.standard_executes o rule.expression c r).loosen Hosts.standard_returnErrors hlooser htrue
    rw [← hloose.unique (Hosts.standard_executes o' rule.expression c r)]
    exact htrue
  refine ⟨hsublist, fun hvalid => ?_, fun hosts herrors hhosts => ⟨fun _ _ h => ?_, fun _ h => ?_⟩⟩
  · rw [Report.valid, List.isEmpty_iff] at hvalid ⊢
    rw [hvalid] at hsublist
    exact List.sublist_nil.1 hsublist
  · exact h.tighten hlooser herrors hhosts hc
  · exact h.loosen hlooser herrors hhosts hc

/-- A string that is left open, an expression that calls a closure of an earlier evaluation, and one that is false
however deep it may nest: it alone is broken under the looser options. -/
theorem RuleSet.report_of_looser_open :
    let r : Registry := ⟨[⟨1, 0⟩], 1⟩
    let c := Context.ofList [("f", .function (.closure 0 0 "x" (.reference "x" []) []))]
    let opened : Rule := ⟨"opened", "is a blank", "!'"⟩
    let called : Rule := ⟨"called", "is another", "f(f) === f"⟩
    let wrong : Rule := ⟨"wrong", "is itself", "f !== f"⟩
    let closed : Rule := ⟨"closed", "is a blank", "!''"⟩
    let o : Options := ⟨2, true⟩
    let o' : Options := ⟨3, false⟩
    (o.Looser o' ∧ c.KnownTo r) ∧
    (RuleSet.report ⟨o, [opened, called, wrong]⟩ c r).violations =
      [opened.violation, called.violation, wrong.violation] ∧
    (RuleSet.report ⟨o', [opened, called, wrong]⟩ c r).violations = [wrong.violation] ∧
    List.Sublist [wrong.violation] [opened.violation, called.violation, wrong.violation] ∧
    ((RuleSet.report ⟨o, [closed]⟩ c r).valid = true ∧ (RuleSet.report ⟨o', [closed]⟩ c r).valid = true) ∧
    ∃ violations r', Hosts.standard.Validates o c [opened, called, wrong] r violations r' ∧
      List.Sublist [wrong.violation] violations := by
  intro r c opened called wrong closed o o'
  have hlooser : o.Looser o' := ⟨by decide, .inl rfl⟩
  have hc : c.KnownTo r := by
    refine List.forall_mem_singleton.2 (.closure "x" _ (by decide) (by decide) ?_)
    exact fun _ h => absurd h List.not_mem_nil
  have htight : (RuleSet.report ⟨o, [opened, called, wrong]⟩ c r).violations =
      [opened.violation, called.violation, wrong.violation] := by
    have hopened : isTrue (o.outcome opened.expression c r) = false := by cbv
    have hcalled : isTrue (o.outcome called.expression c r) = false := by cbv
    have hwrong : isTrue (o.outcome wrong.expression c r) = false := by cbv
    rw [RuleSet.violations_report o hc]
    simp [Rule.broken, hopened, hcalled, hwrong]
  have hloose : (RuleSet.report ⟨o', [opened, called, wrong]⟩ c r).violations = [wrong.violation] := by
    have hopened : isTrue (o'.outcome opened.expression c r) = true := by cbv
    have hcalled : isTrue (o'.outcome called.expression c r) = true := by cbv
    have hwrong : isTrue (o'.outcome wrong.expression c r) = false := by cbv
    rw [RuleSet.violations_report o' hc]
    simp [Rule.broken, hopened, hcalled, hwrong]
  obtain ⟨hsublist, -, hhosts⟩ := RuleSet.report_of_looser hlooser hc [opened, called, wrong]
  obtain ⟨hjudged, -⟩ := hhosts _ Hosts.standard_returnErrors (Hosts.standard_blind r)
  have hvalidates := Hosts.standard_validates o' [opened, called, wrong] c r
  rw [hloose] at hsublist hvalidates
  rw [htight] at hsublist
  have hvalid : (RuleSet.report ⟨o, [closed]⟩ c r).valid = true := by
    have hclosed : isTrue (o.outcome closed.expression c r) = true := by cbv
    rw [Report.valid, RuleSet.violations_report o hc]
    simp [Rule.broken, hclosed]
  have hstays := (RuleSet.report_of_looser hlooser hc [closed]).2.1 hvalid
  exact ⟨⟨hlooser, hc⟩, htight, hloose, hsublist, ⟨hvalid, hstays⟩, hjudged _ _ hvalidates⟩

end RuleLang
