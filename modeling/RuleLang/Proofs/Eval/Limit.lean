import Mathlib
import RuleLang.Proofs.Eval.Outcome

/-!
# A higher limit

An evaluation that does not nest too deep under one limit has the same outcome under every higher one. No builtin
keeps back that an inner call nested too deep, and host functions are asked not to.
-/

namespace RuleLang

variable {limit limit' : Nat} {c : Context} {e : Expr} {r : Registry}

/-- Of two new evaluations, the one with the higher limit has more room. -/
theorem Roomier.started (h : limit ≤ limit') (r : Registry) :
    Roomier True Eq (r.started limit).evaluations (r.started limit').evaluations where
  limit_le := by
    rintro i _ rfl
    by_cases hi : i = r.evaluations.length
    · subst hi
      simpa using h
    · simp only [Registry.started, Evaluations.get_concat_of_ne _ _ hi, Nat.le_refl]
  depth_le := by
    rintro i _ rfl
    by_cases hi : i = r.evaluations.length
    · subst hi
      simp
    · simp only [Registry.started, Evaluations.get_concat_of_ne _ _ hi, Nat.le_refl]
  source h h' := h.trans h'.symm
  exact hlax := absurd trivial hlax
  target hlax := absurd trivial hlax

/-- Under the higher limit an expression ends as under the lower one, unless that is passed. -/
theorem Hosts.gives_of_limit_le {hosts : Hosts} (hhosts : hosts.ReturnErrors) (hlimit : limit ≤ limit') :
    (∀ o, hosts.Gives limit c e r o → ¬TooDeep o → hosts.Gives limit' c e r o) ∧
      ∀ o', hosts.Gives limit' c e r o' → ∃ o, hosts.Gives limit c e r o ∧ (TooDeep o' → TooDeep o) := by
  have hadmits : (Likeness.identity r.functions).Admits True hosts := identity_admits _ fun _ => hhosts
  have hends : EndsLike True (Value.Related Eq) (hosts.Gives limit c e r) (hosts.Gives limit' c e r) :=
    (gives_endsAlike hadmits (.started hlimit r) ⟨rfl, rfl, rfl⟩).endsLike
  constructor
  · intro o h hdeep
    obtain ⟨o', h', ho⟩ := (hends.follow h).resolve_left fun hlax => hdeep hlax.2
    exact ho.eq ▸ h'
  · intro o' h'
    obtain ⟨o, h, hlax | ho⟩ := hends.precede h'
    · exact ⟨o, h, fun _ => hlax.2⟩
    · exact ⟨o, h, fun hdeep => ho.eq ▸ hdeep⟩

/--
A limit that is raised only takes failures away: unless an evaluation fails too deep under the lower limit, it has
the same outcome under the higher one, with the same closures; and if it fails too deep under the higher limit, then
under the lower one as well. This holds in every context, and under all host functions that fail when a function
that they call does.
-/
theorem Registry.outcome_of_limit_le (hlimit : limit ≤ limit') (r : Registry) (c : Context) (e : Expr) :
    (¬TooDeep (r.outcome limit c e) → r.outcome limit' c e = r.outcome limit c e) ∧
    (TooDeep (r.outcome limit' c e) → TooDeep (r.outcome limit c e)) ∧
    ∀ hosts : Hosts, hosts.ReturnErrors →
      (∀ o, hosts.Gives limit c e r o → ¬TooDeep o → hosts.Gives limit' c e r o) ∧
      ∀ o', hosts.Gives limit' c e r o' → ∃ o, hosts.Gives limit c e r o ∧ (TooDeep o' → TooDeep o) := by
  obtain ⟨hfollow, hprecede⟩ := Hosts.gives_of_limit_le (c := c) (e := e) (r := r) Hosts.standard_returnErrors hlimit
  refine ⟨fun hdeep => ?_, fun hdeep => ?_, fun hosts hhosts => Hosts.gives_of_limit_le hhosts hlimit⟩
  · exact Hosts.standard_gives_iff.1 (hfollow _ (Hosts.standard_gives_iff.2 rfl) hdeep)
  · obtain ⟨o, h, ho⟩ := hprecede _ (Hosts.standard_gives_iff.2 rfl)
    rw [Hosts.standard_gives_iff.1 h]
    exact ho hdeep

/-- A host function that calls a lambda needs a limit of two: the body of the lambda is nested in the call. -/
theorem Registry.outcome_of_limit_le_apply :
    let r : Registry := ⟨[], 1⟩
    let c := Context.empty.bind "apply" (.function (.host 0 .apply))
    let e : Expr := .call "apply" [.lambda "x" (.reference "x" []), .string "a"]
    (¬TooDeep (r.outcome 2 c e) ∧ r.outcome 256 c e = r.outcome 2 c e) ∧
    (TooDeep (r.outcome 1 c e) ∧ TooDeep (r.outcome 0 c e)) ∧
    Hosts.standard.ReturnErrors ∧ Hosts.standard.Gives 2 c e r (.ok (.string "a")) ∧
      Hosts.standard.Gives 256 c e r (.ok (.string "a")) := by
  intro r c e
  have htwo : r.outcome 2 c e = .ok (.string "a") := by cbv
  have hone : r.outcome 1 c e = .error (.depthExceeded 1) := by cbv
  have hdeep : ¬TooDeep (.ok (.string "a") : Except EvalError Value) := not_tooDeep_ok _
  have hgives := Hosts.standard_gives_iff.2 htwo
  obtain ⟨hsame, -, hhosts⟩ := Registry.outcome_of_limit_le (by decide : 2 ≤ 256) r c e
  obtain ⟨-, hlower, -⟩ := Registry.outcome_of_limit_le (by decide : 0 ≤ 1) r c e
  have hnot : ¬TooDeep (r.outcome 2 c e) := htwo ▸ hdeep
  have htoo : TooDeep (r.outcome 1 c e) := hone ▸ tooDeep_depthExceeded 1
  refine ⟨⟨hnot, hsame hnot⟩, ⟨htoo, hlower htoo⟩, Hosts.standard_returnErrors, hgives, ?_⟩
  exact (hhosts _ Hosts.standard_returnErrors).1 _ hgives hdeep

end RuleLang
