import Mathlib
import RuleLang.Proofs.Eval.Twin

/-!
# Strict positions

An operator evaluates all its operands, a ternary its condition, and a call all its arguments, whatever values the
others have. So an expression succeeds only if all its parts at such positions did, further down and when more
functions had been made. By itself a part is less deep, so it succeeds then as well: a success vouches for every strict
part, however deep inside it stands.
-/

namespace RuleLang

/-- The parts that every evaluation of an expression evaluates, unless another part has failed before. -/
def Expr.strictParts : Expr → List Expr
  | .unary _ operand => [operand]
  | .binary _ left right => [left, right]
  | .ternary condition _ _ => [condition]
  | .call _ args => args
  | _ => []

/-- An expression is strict in itself and in what its strict parts are strict in. -/
inductive Expr.StrictIn (s : Expr) : Expr → Prop
  | self : StrictIn s s
  | part {x e : Expr} : x ∈ e.strictParts → StrictIn s x → StrictIn s e

/-- An action succeeds in these evaluations at some time when no fewer functions than `n` have been made. -/
def Run.Succeeds {α : Type} (es : Evaluations) (n : Nat) (x : Run α) : Prop :=
  ∃ m a r, n ≤ m ∧ x ⟨es, m⟩ = some (.ok a, r)

section Parts

variable {α β : Type} {es : Evaluations} {n n' : Nat}

theorem Run.Succeeds.of_le {x : Run α} (hn : n ≤ n') (h : x.Succeeds es n') : x.Succeeds es n := by
  obtain ⟨m, a, r, hm, hx⟩ := h
  exact ⟨m, a, r, Nat.le_trans hn hm, hx⟩

variable {operand : Expr → Run Value} {r : Registry}

/-- Arguments succeed only if each of them does. -/
theorem succeeds_of_mapM (hkeeps : ∀ {x n o r}, operand x ⟨es, n⟩ = some (o, r) → ∃ n', n ≤ n' ∧ r = ⟨es, n'⟩)
    {args : List Expr} {vs : List Value} (h : args.mapM operand ⟨es, n⟩ = some (.ok vs, r)) {x : Expr}
    (hx : x ∈ args) : (operand x).Succeeds es n := by
  induction args generalizing n vs r with
  | nil => cases hx
  | cons y args ih =>
    rw [List.mapM_cons] at h
    obtain ⟨v, r', hy, h⟩ := Run.ok_of_bind h
    obtain ⟨us, r'', hargs, -⟩ := Run.ok_of_bind h
    obtain ⟨n', hn', rfl⟩ := hkeeps hy
    rcases List.mem_cons.1 hx with rfl | hx
    · exact ⟨n, v, _, Nat.le_refl n, hy⟩
    · exact (ih hargs hx).of_le hn'

/-- A step succeeds only if all strict parts do. -/
theorem succeeds_of_step {inside : Inside Run} {scope : Scope} {e : Expr} {v : Value}
    (hkeeps : ∀ {x n o r}, inside.operand x ⟨es, n⟩ = some (o, r) → ∃ n', n ≤ n' ∧ r = ⟨es, n'⟩)
    (h : step inside scope e ⟨es, n⟩ = some (.ok v, r)) {x : Expr} (hx : x ∈ e.strictParts) :
    (inside.operand x).Succeeds es n := by
  cases e with
  | unary op y =>
    obtain ⟨w, r', hy, -⟩ := Run.ok_of_bind h
    rw [List.mem_singleton.1 hx]
    exact ⟨n, w, r', Nat.le_refl n, hy⟩
  | binary op y z =>
    obtain ⟨w, r', hy, h⟩ := Run.ok_of_bind h
    obtain ⟨n', hn', rfl⟩ := hkeeps hy
    obtain ⟨w', r'', hz, -⟩ := Run.ok_of_bind h
    rcases List.mem_cons.1 hx with rfl | hx
    · exact ⟨n, w, _, Nat.le_refl n, hy⟩
    · rw [List.mem_singleton.1 hx]
      exact ⟨n', w', r'', hn', hz⟩
  | ternary c y z =>
    obtain ⟨w, r', hc, -⟩ := Run.ok_of_bind h
    rw [List.mem_singleton.1 hx]
    exact ⟨n, w, r', Nat.le_refl n, hc⟩
  | call name args =>
    obtain ⟨f, r', hf, h⟩ := Run.ok_of_bind h
    obtain ⟨vs, r'', hargs, -⟩ := Run.ok_of_bind h
    have hr' : r' = ⟨es, n⟩ := by
      cases hcallee : callee scope name with
      | ok g =>
        rw [hcallee] at hf
        cases hf
        rfl
      | error e =>
        rw [hcallee] at hf
        cases hf
    rw [hr'] at hargs
    exact succeeds_of_mapM hkeeps hargs hx
  | _ => cases hx

end Parts

namespace Hosts

variable {hosts : Hosts} {fuel k depth n : Nat} {es : Evaluations} {scope : Scope} {e s : Expr} {v : Value}
  {r : Registry}

/-- An expression succeeds only if all strict parts do, one level deeper. -/
theorem succeeds_of_part (hcounter : (es.get k).depth ≤ depth)
    (h : hosts.evaluateNode (fuel + 1) k depth scope e ⟨es, n⟩ = some (.ok v, r)) {x : Expr}
    (hx : x ∈ e.strictParts) : (hosts.evaluateNode fuel k (depth + 1) scope x).Succeeds es n := by
  unfold evaluateNode enterWith at h
  obtain ⟨_, _, hread, h⟩ := Run.ok_of_bind h
  cases hread
  by_cases hlimit : depth < (es.get k).limit
  · simp only [hlimit, ↓reduceIte] at h
    apply succeeds_of_step _ h hx
    intro x n o r hx
    exact evaluateNode_ends (Nat.le_succ_of_le hcounter) hx
  · simp only [hlimit, ↓reduceIte] at h
    cases h

/-- An expression succeeds only if all that it is strict in does, at a place that is no less deep. -/
theorem succeeds_of_strictIn (hs : s.StrictIn e) (hcounter : (es.get k).depth ≤ depth)
    (h : (hosts.evaluateNode fuel k depth scope e).Succeeds es n) :
    ∃ fuel' depth', depth ≤ depth' ∧ (hosts.evaluateNode fuel' k depth' scope s).Succeeds es n := by
  induction hs generalizing fuel depth with
  | self => exact ⟨fuel, depth, Nat.le_refl depth, h⟩
  | part hx _ ih =>
    obtain ⟨m, v, r, hm, h⟩ := h
    cases fuel with
    | zero => cases h
    | succ fuel =>
      have hpart := (succeeds_of_part hcounter h hx).of_le hm
      obtain ⟨fuel', depth', hdepth, hs⟩ := ih (Nat.le_succ_of_le hcounter) hpart
      exact ⟨fuel', depth', Nat.le_of_succ_le hdepth, hs⟩

/-- What succeeds at some depth succeeds where it is less deep, as no function keeps back that it nested too deep. -/
theorem succeeds_of_depth_le (hhosts : hosts.ReturnErrors) {depth' : Nat} (hcounter : (es.get k).depth ≤ depth)
    (hdepth : depth' ≤ depth) (h : (hosts.evaluateNode fuel k depth scope s).Succeeds es n) :
    (hosts.evaluateNode fuel k depth' scope s).Succeeds es n := by
  obtain ⟨m, v, r, hm, h⟩ := h
  have hfollows : Follows Eq True False m 0 es es (Value.Related Eq) (hosts.evaluateNode fuel k depth scope s)
      (hosts.evaluateNode fuel k depth' scope s) :=
    Likeness.evaluateNode_follows (identity_admits m fun _ => hhosts) (Nat.le_refl fuel) False.elim (.refl es)
      ⟨rfl, rfl, rfl⟩ hcounter hdepth fun hlax => absurd trivial hlax
  obtain ⟨m', -, -, ⟨-, hdeep⟩ | ⟨o, hless, ho⟩⟩ := hfollows.ends (Nat.le_refl m) h
  · exact absurd hdeep (not_tooDeep_ok v)
  · cases ho with
    | ok hv => exact ⟨m, _, _, hm, hless⟩

variable {c : Context} {limit : Nat}

/-- What succeeds when more functions have been made succeeded before, where all functions in the context are known. -/
theorem gives_of_succeeds (hblind : hosts.Blind r) (hc : c.KnownTo r)
    (h : (hosts.evaluateNode fuel r.evaluations.length 0 c.scope s).Succeeds (r.started limit).evaluations
      r.functions) : ∃ w, hosts.Gives limit c s r (.ok w) := by
  obtain ⟨m, v, r', hm, hlater⟩ := h
  obtain ⟨shift, rfl⟩ := Nat.exists_eq_add_of_le hm
  have hfollows : Follows Eq False True r.functions shift (r.started limit).evaluations (r.started limit).evaluations
      (Value.Related (Function.Twin r.functions shift)) (hosts.evaluateNode fuel r.evaluations.length 0 c.scope s)
      (hosts.evaluateNode fuel r.evaluations.length 0 c.scope s) :=
    Likeness.evaluateNode_follows (hblind.admits_twin shift) (Nat.le_refl fuel) (fun _ => rfl) (.refl _)
      ⟨rfl, rfl, fun name _ => hc.twin shift name⟩ (depth_started_le r limit) (Nat.le_refl 0) fun _ => rfl
  have hends := hfollows.isSome trivial (Nat.le_refl r.functions) (by rw [hlater]; rfl)
  obtain ⟨⟨o, r''⟩, hearlier⟩ := Option.isSome_iff_exists.1 hends
  obtain ⟨n', -, -, ⟨hlax, -⟩ | ⟨o', hlater', ho⟩⟩ := hfollows.ends (Nat.le_refl r.functions) hearlier
  · exact hlax.elim
  · rw [hlater] at hlater'
    cases hlater'
    cases ho with
    | ok => exact ⟨_, fuel, r'', hearlier⟩

/-- An expression that succeeds vouches for all that it is strict in. -/
theorem gives_of_strictIn (hhosts : hosts.ReturnErrors) (hblind : hosts.Blind r) (hc : c.KnownTo r)
    (hs : s.StrictIn e) (h : hosts.Gives limit c e r (.ok v)) : ∃ w, hosts.Gives limit c s r (.ok w) := by
  obtain ⟨fuel, r', h⟩ := h
  have hcounter := depth_started_le r limit
  obtain ⟨fuel', depth, hdepth, hinside⟩ :=
    succeeds_of_strictIn hs hcounter ⟨r.functions, v, r', Nat.le_refl _, h⟩
  have halone := succeeds_of_depth_le hhosts (Nat.le_trans hcounter hdepth) hdepth hinside
  exact gives_of_succeeds hblind hc halone

/-- An expression fails, if it ends, where something that it is strict in fails by itself. -/
theorem fails_of_strictIn (hhosts : hosts.ReturnErrors) (hblind : hosts.Blind r) (hc : c.KnownTo r)
    (hs : s.StrictIn e) {error : EvalError} (h : hosts.Gives limit c s r (.error error))
    {o : Except EvalError Value} (ho : hosts.Gives limit c e r o) : ∃ error', o = .error error' := by
  cases o with
  | error error' => exact ⟨error', rfl⟩
  | ok v =>
    obtain ⟨w, hw⟩ := gives_of_strictIn hhosts hblind hc hs ho
    cases hw.unique h

end Hosts

/--
Strict positions are always evaluated. In a context of known functions, an expression fails if something that it is
strict in fails by itself under the same limit, with whatever error; and if it succeeds, then so does all that it is
strict in. This holds under all host functions that fail when a function that they call does and that know no
functions but those that there are, as far as the evaluations come to an end; under those of the library they do.
-/
theorem Registry.outcome_of_strictIn {s e : Expr} (hs : s.StrictIn e) {r : Registry} {c : Context}
    (hc : c.KnownTo r) (limit : Nat) :
    (∀ error, r.outcome limit c s = .error error → ∃ error', r.outcome limit c e = .error error') ∧
    (∀ v, r.outcome limit c e = .ok v → ∃ w, r.outcome limit c s = .ok w) ∧
    ∀ hosts : Hosts, hosts.ReturnErrors → hosts.Blind r →
      (∀ error, hosts.Gives limit c s r (.error error) → ∀ o, hosts.Gives limit c e r o →
        ∃ error', o = .error error') ∧
      ∀ v, hosts.Gives limit c e r (.ok v) → ∃ w, hosts.Gives limit c s r (.ok w) := by
  refine ⟨fun error h => ?_, fun v h => ?_, fun hosts hhosts hblind => ⟨fun error h o ho => ?_, fun v h => ?_⟩⟩
  · exact Hosts.fails_of_strictIn Hosts.standard_returnErrors (Hosts.standard_blind r) hc hs
      (Hosts.standard_gives_iff.2 h) (Hosts.standard_gives_iff.2 rfl)
  · obtain ⟨w, hw⟩ := Hosts.gives_of_strictIn Hosts.standard_returnErrors (Hosts.standard_blind r) hc hs
      (Hosts.standard_gives_iff.2 h)
    exact ⟨w, Hosts.standard_gives_iff.1 hw⟩
  · exact Hosts.fails_of_strictIn hhosts hblind hc hs h ho
  · exact Hosts.gives_of_strictIn hhosts hblind hc hs h

/-- The right side of an "or" is evaluated though the left side is true, and so is an argument after a lambda. -/
theorem Registry.outcome_of_strictIn_or :
    let r : Registry := ⟨[], 1⟩
    let c := Context.empty.bind "list" (.function (.host 0 .arguments))
    let wrong : Expr := .unary .neg (.string "a")
    let right : Expr := .call "list" [.string "a"]
    let e (s : Expr) : Expr := .call "list" [.lambda "x" (.reference "x" []), .binary .or (.string "b") s]
    ((∀ s : Expr, s.StrictIn (e s)) ∧ c.KnownTo r) ∧
    (r.outcome 256 c wrong = .error (.operand .string) ∧ ∃ error, r.outcome 256 c (e wrong) = .error error) ∧
    ((∃ v, r.outcome 256 c (e right) = .ok v) ∧ ∃ w, r.outcome 256 c right = .ok w) ∧
    Hosts.standard.ReturnErrors ∧ Hosts.standard.Blind r ∧ ∃ w, Hosts.standard.Gives 256 c right r (.ok w) := by
  intro r c wrong right e
  have hstrict (s : Expr) : s.StrictIn (e s) := by
    have hright : s.StrictIn (.binary .or (.string "b") s) := .part (.tail _ (.head _)) .self
    exact .part (.tail _ (.head _)) hright
  have hc : c.KnownTo r := by
    intro f hf
    obtain rfl : f = .host 0 .arguments := List.mem_singleton.1 hf
    exact .host .arguments (by decide)
  have hwrong : r.outcome 256 c wrong = .error (.operand .string) := by cbv
  have hvalue : r.outcome 256 c (e right) =
      .ok (.list [.function (.closure 1 0 "x" (.reference "x" []) c.entries), .boolean true]) := by cbv
  obtain ⟨hfails, -, -⟩ := Registry.outcome_of_strictIn (hstrict wrong) hc 256
  obtain ⟨-, hsucceeds, hhosts⟩ := Registry.outcome_of_strictIn (hstrict right) hc 256
  obtain ⟨-, hgives⟩ := hhosts Hosts.standard Hosts.standard_returnErrors (Hosts.standard_blind r)
  refine ⟨⟨hstrict, hc⟩, ⟨hwrong, hfails _ hwrong⟩, ⟨⟨_, hvalue⟩, hsucceeds _ hvalue⟩, ?_⟩
  exact ⟨Hosts.standard_returnErrors, Hosts.standard_blind r, hgives _ (Hosts.standard_gives_iff.2 hvalue)⟩

end RuleLang
