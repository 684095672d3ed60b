import Mathlib
import RuleLang.Proofs.Rules.Batch
import RuleLang.Proofs.Token.Blank

/-!
# Verdicts on one source text

A rule, a condition of visibility, a batch and a check of the syntax look at the same source text each in its own way.
They agree, whenever they are asked: a rule that passes would show a field, what shows a field is valid in a batch, and
what is valid there has the right syntax, which is to say that it can be parsed. All evaluations of a text come to
one outcome, up to the numbers of new functions, and every verdict is read off this outcome or off the parser.
-/

namespace RuleLang

namespace Form

/-- Whether an outcome shows a field: whether it is a value that counts as true. -/
def isShown : Except ExecError Value → Bool
  | .ok v => v.truthy
  | .error _ => false

/-- Verdicts on a source text that agree: whether a rule with it passes, whether a field that it guards is shown, and
its result in a batch. -/
structure Agree (source : String) (passes shown : Bool) (result : ExpressionResult) : Prop where
  of_passes : passes = true → shown = true
  of_shown : shown = true → result.valid = true
  of_valid : result.valid = true → checkSyntax source = .ok ()
  of_empty : checkSyntax source = .error .empty → passes = false ∧ shown = false ∧ result.valid = false
  of_wrong : ∀ e, checkSyntax source = .error (.wrong e) →
    ({} : Options).parse source = .error e ∧ result.error = some (SyntaxError.text e)

section Syntax

variable {source : String}

theorem checkSyntax_eq_empty_iff : checkSyntax source = .error .empty ↔ ∀ c ∈ source.toList, Text.isBlank c = true := by
  rw [← Text.allBlank_iff, checkSyntax]
  cases Text.allBlank source with
  | true => exact iff_of_true rfl rfl
  | false =>
    rw [if_neg Bool.false_ne_true]
    cases ({} : Options).parse source <;> exact iff_of_false nofun Bool.false_ne_true

/-- The check finds what is wrong in a text that is not blank as the parser does. -/
theorem parse_of_checkSyntax {e : SyntaxError} (h : checkSyntax source = .error (.wrong e)) :
    ({} : Options).parse source = .error e := by
  rw [checkSyntax] at h
  split at h
  · cases h
  · cases hparse : ({} : Options).parse source with
    | ok _ =>
      rw [hparse] at h
      cases h
    | error e' =>
      rw [hparse] at h
      cases h
      rfl

/-- A blank text needs no check of its own: it cannot be parsed. -/
theorem checkSyntax_eq_ok_iff : checkSyntax source = .ok () ↔ ∃ e, ({} : Options).parse source = .ok e := by
  rw [checkSyntax]
  cases hblank : Text.allBlank source with
  | true =>
    obtain ⟨err, herr⟩ := ({} : Options).parse_blanks (Text.allBlank_iff.1 hblank)
    rw [if_pos rfl, herr]
    exact iff_of_false nofun nofun
  | false =>
    rw [if_neg Bool.false_ne_true]
    cases ({} : Options).parse source with
    | ok e => exact iff_of_true rfl ⟨e, rfl⟩
    | error e => exact iff_of_false nofun nofun

end Syntax

section Verdicts

variable {source : String} {r : Registry} {out out' : Except ExecError Value} {result : ExpressionResult}

theorem isShown_of_isTrue (h : isTrue out = true) : isShown out = true := by
  rw [isTrue_iff.1 h]
  rfl

theorem isShown_of_alike (h : Outcome.Related (Value.AlikeSince r) out out') : isShown out = isShown out' := by
  cases h with
  | error => rfl
  | ok h =>
    obtain ⟨_, _, -, hv⟩ := h
    exact hv.truthy_eq

theorem Entered.valid_eq (h : Entered r out result) : result.valid = out.isOk := by
  cases h <;> rfl

theorem Entered.error_eq {e : ExecError} (h : Entered r (.error e) result) : result.error = some e.text := by
  cases h
  rfl

theorem isOk_of_isShown (h : isShown out = true) : out.isOk = true := by
  cases out with
  | ok v => rfl
  | error e => cases h

/-- Verdicts that are read off one outcome agree, if the outcome is the error of the parser where there is one. -/
theorem Agree.of_outcome (hparse : ∀ e, ({} : Options).parse source = .error e → out = .error (.parse e))
    (hresult : Entered r out result) : Agree source (isTrue out) (isShown out) result := by
  have hvalid : result.valid = out.isOk := hresult.valid_eq
  have hchecked (h : out.isOk = true) : checkSyntax source = .ok () := by
    refine checkSyntax_eq_ok_iff.2 ?_
    cases hsource : ({} : Options).parse source with
    | ok e => exact ⟨e, rfl⟩
    | error e =>
      rw [hparse e hsource] at h
      cases h
  have hnegative {verdict : Bool} (h : verdict = true → out.isOk = true) (hempty : checkSyntax source = .error .empty) :
      verdict = false := by
    rw [← Bool.not_eq_true]
    intro hverdict
    cases hempty.symm.trans (hchecked (h hverdict))
  refine ⟨isShown_of_isTrue, fun h => hvalid.trans (isOk_of_isShown h), fun h => hchecked (hvalid.symm.trans h), ?_, ?_⟩
  · intro hempty
    refine ⟨hnegative (fun h => isOk_of_isShown (isShown_of_isTrue h)) hempty, hnegative isOk_of_isShown hempty, ?_⟩
    exact hnegative hvalid.symm.trans hempty
  · intro e hwrong
    have hsource := parse_of_checkSyntax hwrong
    rw [hparse e hsource] at hresult
    exact ⟨hsource, hresult.error_eq⟩

end Verdicts

end Form

namespace Hosts

open Form

/-- Whether a rule passes under any host functions, and the registry after it. -/
def Passes (hosts : Hosts) (c : Context) (rule : Rule) (r : Registry) (passes : Bool) (r' : Registry) : Prop :=
  ∃ out, hosts.Executes {} c rule.expression r out r' ∧ passes = isTrue out

/-- Whether a condition shows its field under any host functions, and the registry after it. -/
def Shows (hosts : Hosts) (c : Context) (condition : String) (r : Registry) (shown : Bool) (r' : Registry) : Prop :=
  ∃ out, hosts.Executes {} c condition r out r' ∧ shown = isShown out

variable {hosts : Hosts} {c : Context} {source : String} {r r₁ r₂ r₃ r₁' r₂' r₃' : Registry} {rule : Rule}
  {passes shown : Bool} {expressions : List (String × String)} {results : Entries ExpressionResult} {name : String}

theorem Executes.eq_of_parse {o : Options} {out : Except ExecError Value} {e : SyntaxError}
    (h : hosts.Executes o c source r out r₁) (hparse : o.parse source = .error e) : out = .error (.parse e) := by
  cases h with
  | parse herror =>
    cases herror.symm.trans hparse
    rfl
  | eval hok => cases hok.symm.trans hparse

/-- Verdicts that are given at any times agree. -/
theorem agree (hhosts : hosts.Blind r) (hc : c.KnownTo r) (h₁ : r.Later r₁) (h₂ : r.Later r₂) (h₃ : r.Later r₃)
    (hname : Entries.get? name expressions.reverse = some rule.expression)
    (hpasses : hosts.Passes c rule r₁ passes r₁') (hshown : hosts.Shows c rule.expression r₂ shown r₂')
    (hresults : hosts.EvaluatesAll c expressions r₃ results r₃') :
    ∃ result, results.get? name = some result ∧ Agree rule.expression passes shown result := by
  obtain ⟨out₁, hexec₁, rfl⟩ := hpasses
  obtain ⟨out₂, hexec₂, rfl⟩ := hshown
  obtain ⟨reports, hreports, rfl⟩ := hresults
  obtain ⟨out, result, ⟨r', halone⟩, hentry, hentered⟩ :=
    (Independent.of_paired (hreports.alone hhosts hc h₃)).entered hname
  obtain ⟨out₁', _, halone₁, halike₁⟩ := hexec₁.precede hhosts hc h₁
  obtain ⟨out₂', _, halone₂, halike₂⟩ := hexec₂.precede hhosts hc h₂
  cases halone.unique halone₁
  cases halone.unique halone₂
  refine ⟨result, hentry, ?_⟩
  rw [← isTrue_of_alike halike₁, ← isShown_of_alike halike₂]
  exact .of_outcome (fun e => halone.eq_of_parse) hentered

/-- What ends at one time ends at any other. -/
theorem executes_iff {o : Options} (hhosts : hosts.Blind r) (hc : c.KnownTo r) (h₁ : r.Later r₁) (h₂ : r.Later r₂) :
    (∃ out r', hosts.Executes o c source r₁ out r') ↔ ∃ out r', hosts.Executes o c source r₂ out r' := by
  have hmove {r₁ r₂ : Registry} (h₁ : r.Later r₁) (h₂ : r.Later r₂)
      (h : ∃ out r', hosts.Executes o c source r₁ out r') : ∃ out r', hosts.Executes o c source r₂ out r' := by
    obtain ⟨out, r', hexec⟩ := h
    obtain ⟨out', r'', halone, -⟩ := hexec.precede hhosts hc h₁
    obtain ⟨out'', r''', hexec', -⟩ := halone.follow hhosts hc h₂
    exact ⟨out'', r''', hexec'⟩
  exact ⟨hmove h₁ h₂, hmove h₂ h₁⟩

theorem exists_passes_iff :
    (∃ passes r', hosts.Passes c rule r passes r') ↔ ∃ out r', hosts.Executes {} c rule.expression r out r' := by
  constructor
  · rintro ⟨_, r', out, hexec, -⟩
    exact ⟨out, r', hexec⟩
  · rintro ⟨out, r', hexec⟩
    exact ⟨_, r', out, hexec, rfl⟩

theorem exists_shows_iff :
    (∃ shown r', hosts.Shows c source r shown r') ↔ ∃ out r', hosts.Executes {} c source r out r' := by
  constructor
  · rintro ⟨_, r', out, hexec, -⟩
    exact ⟨out, r', hexec⟩
  · rintro ⟨out, r', hexec⟩
    exact ⟨_, r', out, hexec, rfl⟩

theorem exists_evaluatesAll_iff : (∃ results r', hosts.EvaluatesAll c [(name, source)] r results r') ↔
    ∃ out r', hosts.Executes {} c source r out r' := by
  constructor
  · rintro ⟨_, r', _, hreports, -⟩
    cases hreports with
    | cons hexec _ => exact ⟨_, _, hexec⟩
  · rintro ⟨out, r', hexec⟩
    exact ⟨_, r', _, .cons hexec (.nil r'), rfl⟩

theorem standard_passes (c : Context) (rule : Rule) (r : Registry) :
    ∃ r', Hosts.standard.Passes c rule r ((rule.passes {} c).run r).1 r' :=
  ⟨_, _, standard_executes {} rule.expression c r, rfl⟩

theorem standard_shows (c : Context) (condition : String) (r : Registry) :
    ∃ r', Hosts.standard.Shows c condition r ((visible c condition).run r).1 r' := by
  refine ⟨_, _, standard_executes {} condition c r, ?_⟩
  unfold visible Options.outcome
  rw [StateT.run_bind]
  obtain ⟨out, r'⟩ := (({} : Options).exec condition c).run r
  cases out <;> rfl

end Hosts

/--
In a context whose functions are all known, verdicts on a source text under the default options agree, each given at
any time since: a rule that passes shows a field, what shows a field is valid in any batch that gives the text last for
a name, what is valid has the right syntax, and where the syntax is wrong the error in the batch is that of the parser.
The syntax is right exactly if the text can be parsed. The texts found to be empty are those of which nothing is left
when they are trimmed, all whose characters are blank; they cannot be parsed under any options, and all verdicts on them
are negative. All of this holds under host functions of any kind that know and tell apart no other functions than these;
if one of the verdicts is given at all, then so are the others.
-/
theorem Form.verdicts_agree {c : Context} {r : Registry} (hc : c.KnownTo r) :
    (∀ (rule : Rule) expressions name r₁ r₂ r₃, r.Later r₁ → r.Later r₂ → r.Later r₃ →
      Entries.get? name expressions.reverse = some rule.expression →
      ∃ result, ((Form.evaluateAll c expressions).run r₃).1.get? name = some result ∧
        Form.Agree rule.expression ((rule.passes {} c).run r₁).1 ((Form.visible c rule.expression).run r₂).1 result) ∧
    (∀ source, (Form.checkSyntax source = .ok () ↔ ∃ e, ({} : Options).parse source = .ok e) ∧
      (Form.checkSyntax source = .error .empty ↔ Text.trim source = "") ∧
      (Text.trim source = "" ↔ ∀ ch ∈ source.toList, Text.isBlank ch = true) ∧
      (Form.checkSyntax source = .error .empty → ∀ o : Options, ∃ err, o.parse source = .error err)) ∧
    ∀ hosts : Hosts, hosts.Blind r → ∀ (rule : Rule) r₁ r₂ r₃, r.Later r₁ → r.Later r₂ → r.Later r₃ →
      (∀ expressions name passes shown results r₁' r₂' r₃',
        Entries.get? name expressions.reverse = some rule.expression →
        hosts.Passes c rule r₁ passes r₁' → hosts.Shows c rule.expression r₂ shown r₂' →
        hosts.EvaluatesAll c expressions r₃ results r₃' →
        ∃ result, results.get? name = some result ∧ Form.Agree rule.expression passes shown result) ∧
      ((∃ passes r', hosts.Passes c rule r₁ passes r') ↔ ∃ shown r', hosts.Shows c rule.expression r₂ shown r') ∧
      ∀ name, (∃ shown r', hosts.Shows c rule.expression r₂ shown r') ↔
        ∃ results r', hosts.EvaluatesAll c [(name, rule.expression)] r₃ results r' := by
  refine ⟨?_, fun source => ⟨Form.checkSyntax_eq_ok_iff, ?_, Text.trim_eq_empty_iff, ?_⟩, ?_⟩
  · intro rule expressions name r₁ r₂ r₃ h₁ h₂ h₃ hname
    obtain ⟨_, hpasses⟩ := Hosts.standard_passes c rule r₁
    obtain ⟨_, hshown⟩ := Hosts.standard_shows c rule.expression r₂
    obtain ⟨_, hresults⟩ := Hosts.standard_evaluatesAll c expressions r₃
    exact Hosts.agree (Hosts.standard_blind r) hc h₁ h₂ h₃ hname hpasses hshown hresults
  · exact Form.checkSyntax_eq_empty_iff.trans Text.trim_eq_empty_iff.symm
  · exact fun hempty o => o.parse_blanks (Form.checkSyntax_eq_empty_iff.1 hempty)
  · intro hosts hhosts rule r₁ r₂ r₃ h₁ h₂ h₃
    refine ⟨?_, ?_, fun name => ?_⟩
    · intro expressions name passes shown results r₁' r₂' r₃' hname hpasses hshown hresults
      exact Hosts.agree hhosts hc h₁ h₂ h₃ hname hpasses hshown hresults
    · rw [Hosts.exists_passes_iff, Hosts.exists_shows_iff]
      exact Hosts.executes_iff hhosts hc h₁ h₂
    · rw [Hosts.exists_shows_iff, Hosts.exists_evaluatesAll_iff]
      exact Hosts.executes_iff hhosts hc h₂ h₃

/-- A rule that passes, and what follows for the same text after a closure of an earlier evaluation has nested too deep;
a text of blanks that the lexer does not skip. -/
theorem Form.verdicts_agree_later :
    let r : Registry := ⟨[⟨2, 0⟩], 2⟩
    let body : Expr := .unary .not (.unary .not (.reference "x" []))
    let c := Context.ofList [("f", .function (.closure 1 0 "x" body [])), ("apply", .function (.host 0 .apply))]
    let same : Rule := ⟨"same", "is not itself", "f === f"⟩
    let r' := ((({} : Options).exec "f(f)" c).run r).2
    let batch := [("a", "apply(f, f)"), ("b", "f(f)"), ("a", same.expression)]
    c.KnownTo r ∧ r.Later r' ∧ ((same.passes {} c).run r).1 = true ∧
    ((Form.visible c same.expression).run r').1 = true ∧
    (∃ result, ((Form.evaluateAll c batch).run r').1.get? "a" = some result ∧ result.valid = true) ∧
    Form.checkSyntax same.expression = .ok () ∧ (∃ e, ({} : Options).parse same.expression = .ok e) ∧
    Form.checkSyntax " \u00a0" = .error .empty ∧ (∃ err, ({} : Options).parse " \u00a0" = .error err) ∧
    ∃ shown r'', Hosts.standard.Shows c same.expression r' shown r'' := by
  intro r body c same r' batch
  have hc : c.KnownTo r := by
    refine List.forall_mem_cons.2 ⟨.closure "x" body (by decide) (by decide) ?_, ?_⟩
    · exact fun _ h => absurd h List.not_mem_nil
    · exact List.forall_mem_singleton.2 (.host .apply (by decide))
  have hlater : r.Later r' := (Hosts.standard_executes {} "f(f)" c r).later
  have hsame : ({} : Options).outcome same.expression c r = .ok (.boolean true) := by cbv
  have hpasses : ((same.passes {} c).run r).1 = true := isTrue_iff.2 hsame
  obtain ⟨hagree, hsource, hhosts⟩ := Form.verdicts_agree hc
  obtain ⟨result, hresult, hverdicts⟩ := hagree same batch "a" r r' r' (.refl r) hlater hlater rfl
  have hshown := hverdicts.of_passes hpasses
  have hvalid := hverdicts.of_shown hshown
  have hchecked := hverdicts.of_valid hvalid
  have hblank : Form.checkSyntax " \u00a0" = .error .empty := (hsource " \u00a0").2.1.2 (by decide)
  have hends := (hhosts _ (Hosts.standard_blind r) same r r' r' (.refl r) hlater hlater).2.1
  refine ⟨hc, hlater, hpasses, hshown, ⟨result, hresult, hvalid⟩, hchecked, (hsource _).1.1 hchecked, hblank, ?_, ?_⟩
  · exact (hsource _).2.2.2 hblank {}
  · exact hends.1 ⟨_, Hosts.standard_passes c same r⟩

end RuleLang
