import Mathlib
import RuleLang.Proofs.Eval.Path
import RuleLang.Proofs.Eval.Twin

/-!
# References

A reference gives what its path leads to from the value of its root. It may be cut anywhere where it reaches a value:
the rest gives the same from a name for that value, although the functions that the indices of the first part make are
not there then. So the rest is compared in runs that differ in what they have made before.
-/

namespace RuleLang

namespace Lifting

variable {m₁ m₂ : Type → Type} [Monad m₁] [MonadExceptOf EvalError m₁] [Monad m₂] [MonadExceptOf EvalError m₂]
  {L : Lifting m₁ m₂} {F : Function → Function → Prop}

/-- A path from one value leads to the same value if its indices are related: they are numbers, or no index at all. -/
theorem follow_same {eval₁ : Expr → m₁ Value} {eval₂ : Expr → m₂ Value} {segments : List Segment}
    (h : ∀ x, .index x ∈ segments → L.rel (Value.Related F) (eval₁ x) (eval₂ x)) (v : Value) :
    L.rel Eq (RuleLang.follow eval₁ v segments) (RuleLang.follow eval₂ v segments) := by
  induction segments generalizing v with
  | nil => exact L.pure rfl
  | cons segment segments ih =>
    have hrest := ih fun x hx => h x (List.mem_cons_of_mem _ hx)
    cases segment with
    | property name =>
      rw [RuleLang.follow, RuleLang.follow]
      cases v.property? name with
      | none => exact L.pure rfl
      | some w => exact hrest w
    | index x =>
      rw [RuleLang.follow, RuleLang.follow]
      refine L.bind (h x (List.mem_cons_self ..)) fun i j hij => ?_
      have hitem : v.item? i = v.item? j := by
        cases v with
        | list items => rw [Value.item?, Value.item?, hij.index?_eq]
        | _ => rfl
      rw [hitem]
      cases v.item? j with
      | none => exact L.pure rfl
      | some w => exact hrest w

end Lifting

namespace Hosts

variable (hosts : Hosts) (limit : Nat) (c : Context) (r : Registry)

/-- Evaluates a part of the expression that is evaluated in a new evaluation. -/
abbrev part (fuel : Nat) : Expr → Run Value :=
  hosts.evaluateNode fuel r.evaluations.length 1 c.scope

/-- The outcome of such a part, when `n` functions have been made before and `n'` after. -/
def Operand (x : Expr) (n : Nat) (o : Except EvalError Value) (n' : Nat) : Prop :=
  ∃ fuel, hosts.part c r fuel x ⟨(r.started limit).evaluations, n⟩ = some (o, ⟨(r.started limit).evaluations, n'⟩)

/-- Where a path leads to from a name: nowhere if the name is not bound. -/
inductive Leads (root : String) (segments : List Segment) : PathEnd → Nat → Prop
  | unbound : c.get? root = none → Leads root segments .missed r.functions
  | bound {v : Value} {e : PathEnd} {n : Nat} : c.get? root = some v →
      Path.Leads (hosts.Operand limit c r) v segments r.functions e n → Leads root segments e n

variable {hosts limit c r} {x : Expr} {n n' : Nat} {o o' : Except EvalError Value}

theorem depth_started_le_one (r : Registry) (limit : Nat) :
    ((r.started limit).evaluations.get r.evaluations.length).depth ≤ 1 :=
  Nat.le_succ_of_le (depth_started_le r limit)

theorem Operand.le (h : hosts.Operand limit c r x n o n') : n ≤ n' := by
  obtain ⟨fuel, h⟩ := h
  obtain ⟨_, hn, hr⟩ := evaluateNode_ends (depth_started_le_one r limit) h
  cases hr
  exact hn

/-- A part ends with any fuel from some amount on. -/
theorem Operand.enough (h : hosts.Operand limit c r x n o n') : ∃ enough, ∀ fuel, enough ≤ fuel →
    hosts.part c r fuel x ⟨(r.started limit).evaluations, n⟩ = some (o, ⟨(r.started limit).evaluations, n'⟩) := by
  obtain ⟨enough, h⟩ := h
  exact ⟨enough, fun fuel hfuel => evaluateNode_mono hfuel (depth_started_le_one r limit) h⟩

theorem Operand.unique {n'' : Nat} (h : hosts.Operand limit c r x n o n') (h' : hosts.Operand limit c r x n o' n'') :
    o = o' ∧ n' = n'' := by
  obtain ⟨enough, h⟩ := h.enough
  obtain ⟨enough', h'⟩ := h'.enough
  have heq := (h _ (Nat.le_max_left enough enough')).symm.trans (h' _ (Nat.le_max_right enough enough'))
  cases heq
  exact ⟨rfl, rfl⟩

/-- A path that leads somewhere can be followed with any fuel from some amount on. -/
theorem follow_of_leads {v : Value} {segments : List Segment} {e : PathEnd}
    (h : Path.Leads (hosts.Operand limit c r) v segments n e n') : ∃ enough, ∀ fuel, enough ≤ fuel →
      follow (hosts.part c r fuel) v segments ⟨(r.started limit).evaluations, n⟩ =
        some (e.outcome, ⟨(r.started limit).evaluations, n'⟩) := by
  induction h with
  | here => exact ⟨0, fun _ _ => rfl⟩
  | property hw _ ih =>
    obtain ⟨enough, ih⟩ := ih
    refine ⟨enough, fun fuel hfuel => ?_⟩
    rw [follow, Value.property?_eq_some_iff.2 hw]
    exact ih fuel hfuel
  | noProperty hno =>
    refine ⟨0, fun fuel _ => ?_⟩
    rw [follow, Value.property?_eq_none_iff.2 hno]
    rfl
  | item hi hw _ ih =>
    obtain ⟨enough, hi⟩ := hi.enough
    obtain ⟨enough', ih⟩ := ih
    refine ⟨max enough enough', fun fuel hfuel => ?_⟩
    rw [follow, Run.bind_ok (hi fuel (Nat.le_trans (Nat.le_max_left ..) hfuel)), Value.item?_eq_some_iff.2 hw]
    exact ih fuel (Nat.le_trans (Nat.le_max_right ..) hfuel)
  | noItem hi hno =>
    obtain ⟨enough, hi⟩ := hi.enough
    refine ⟨enough, fun fuel hfuel => ?_⟩
    rw [follow, Run.bind_ok (hi fuel hfuel), Value.item?_eq_none_iff.2 hno]
    rfl
  | fails hi =>
    obtain ⟨enough, hi⟩ := hi.enough
    refine ⟨enough, fun fuel hfuel => ?_⟩
    rw [follow, Run.bind_error (hi fuel hfuel)]
    rfl

section Ends

variable {v : Value} {segments : List Segment}

/-- To follow a path is to find where it leads to. -/
theorem ends_follow_iff :
    Run.Ends (fun fuel => follow (hosts.part c r fuel) v segments) ⟨(r.started limit).evaluations, n⟩ o ↔
      ∃ e n', Path.Leads (hosts.Operand limit c r) v segments n e n' ∧ o = e.outcome := by
  constructor
  · rintro ⟨fuel, r', h⟩
    have hkeeps {x : Expr} {n : Nat} {o : Except EvalError Value} {r' : Registry}
        (h : hosts.part c r fuel x ⟨(r.started limit).evaluations, n⟩ = some (o, r')) :
        ∃ n', r' = ⟨(r.started limit).evaluations, n'⟩ := by
      obtain ⟨n', -, hr⟩ := evaluateNode_ends (depth_started_le_one r limit) h
      exact ⟨n', hr⟩
    obtain ⟨e, n', -, ho, hleads⟩ := Path.leads_of_follow hkeeps h
    exact ⟨e, n', hleads.mono fun hx => ⟨fuel, hx⟩, ho⟩
  · rintro ⟨e, n', hleads, rfl⟩
    obtain ⟨enough, h⟩ := follow_of_leads hleads
    exact ⟨enough, _, h enough (Nat.le_refl enough)⟩

theorem ends_follow_unique
    (h : Run.Ends (fun fuel => follow (hosts.part c r fuel) v segments) ⟨(r.started limit).evaluations, n⟩ o)
    (h' : Run.Ends (fun fuel => follow (hosts.part c r fuel) v segments) ⟨(r.started limit).evaluations, n⟩ o') :
    o = o' := by
  obtain ⟨e, n₁, hleads, rfl⟩ := ends_follow_iff.1 h
  obtain ⟨e', n₂, hleads', rfl⟩ := ends_follow_iff.1 h'
  obtain ⟨enough, hrun⟩ := follow_of_leads hleads
  obtain ⟨enough', hrun'⟩ := follow_of_leads hleads'
  have heq := (hrun _ (Nat.le_max_left enough enough')).symm.trans (hrun' _ (Nat.le_max_right enough enough'))
  exact (Prod.mk.inj (Option.some.inj heq)).1

theorem evaluateNode_reference (hlimit : 1 ≤ limit) (fuel : Nat) (root : String) :
    hosts.evaluateNode (fuel + 1) r.evaluations.length 0 c.scope (.reference root segments) (r.started limit) =
      match c.get? root with
      | some v => follow (hosts.part c r fuel) v segments (r.started limit)
      | none => some (.ok .null, r.started limit) := by
  rw [Hosts.evaluateNode, enterWith]
  show (ite (0 < ((r.started limit).evaluations.get r.evaluations.length).limit) _ _ : Run Value) _ = _
  have hroom : 0 < (Evaluation.mk limit 0).limit := hlimit
  rw [Registry.get_started, if_pos hroom, step]
  show (match c.get? root with
    | some v => follow _ v segments
    | none => return .null : Run Value) _ = _
  cases c.get? root <;> rfl

/-- A reference gives what its path leads to. -/
theorem gives_reference_iff (hlimit : 1 ≤ limit) {root : String} :
    hosts.Gives limit c (.reference root segments) r o ↔
      ∃ e n, hosts.Leads limit c r root segments e n ∧ o = e.outcome := by
  constructor
  · rintro ⟨fuel, r', h⟩
    cases fuel with
    | zero => cases h
    | succ fuel =>
      have h := (evaluateNode_reference hlimit fuel root).symm.trans h
      cases hroot : c.get? root with
      | none =>
        rw [hroot] at h
        cases h
        exact ⟨.missed, r.functions, .unbound hroot, rfl⟩
      | some v =>
        rw [hroot] at h
        obtain ⟨e, n, hleads, ho⟩ := ends_follow_iff.1 ⟨fuel, r', h⟩
        exact ⟨e, n, .bound hroot hleads, ho⟩
  · rintro ⟨e, n, hleads, rfl⟩
    cases hleads with
    | unbound hroot =>
      refine ⟨1, r.started limit, (evaluateNode_reference hlimit 0 root).trans ?_⟩
      rw [hroot]
      rfl
    | bound hroot hleads =>
      obtain ⟨enough, h⟩ := follow_of_leads hleads
      refine ⟨enough + 1, ⟨(r.started limit).evaluations, n⟩, (evaluateNode_reference hlimit enough root).trans ?_⟩
      rw [hroot]
      exact h enough (Nat.le_refl enough)

end Ends

section Shift

variable {v : Value} {segments : List Segment} {t : String}

/-- A path leads to the same end when more functions have been made and one more name is bound that it does not use. -/
theorem leads_shift (hhosts : hosts.Blind r) (hc : c.KnownTo r) (ht : t ∉ Expr.segmentNames segments) (w : Value)
    (hn : r.functions ≤ n) :
    (∃ e n', Path.Leads (hosts.Operand limit (c.bind t w) r) v segments r.functions e n' ∧ o = e.outcome) ↔
      ∃ e n', Path.Leads (hosts.Operand limit c r) v segments n e n' ∧ o = e.outcome := by
  obtain ⟨shift, rfl⟩ := Nat.exists_eq_add_of_le hn
  rw [← ends_follow_iff, ← ends_follow_iff]
  -- the values on the path are the same in both runs; only the indices may hold functions with other numbers
  have hindex (fuel : Nat) (x : Expr) (hx : .index x ∈ segments) :
      Follows Eq False True r.functions shift (r.started limit).evaluations (r.started limit).evaluations
        (Value.Related (Function.Twin r.functions shift)) (hosts.part (c.bind t w) r fuel x)
        (hosts.part c r fuel x) := by
    refine Likeness.evaluateNode_follows (hhosts.admits_twin shift) (Nat.le_refl fuel) (fun _ => rfl)
      (.refl (r.started limit).evaluations) ⟨rfl, rfl, fun name hname => ?_⟩ (depth_started_le_one r limit)
      (Nat.le_refl 1) fun _ => rfl
    have hne : t ≠ name := fun heq => ht (heq ▸ Expr.mem_segmentNames hx hname)
    have hget : (c.bind t w).scope.lookup name = c.get? name := by
      show (c.bind t w).get? name = _
      rw [Context.get?, Context.bind, Entries.get?_insert, if_neg hne, Context.get?]
    rw [hget]
    exact hc.twin shift name
  have hfollows (fuel : Nat) : Follows Eq False True r.functions shift (r.started limit).evaluations
      (r.started limit).evaluations Eq (follow (hosts.part (c.bind t w) r fuel) v segments)
      (follow (hosts.part c r fuel) v segments) :=
    (Follows.lifting (fun _ => rfl) ..).follow_same (hindex fuel) v
  have hends := Follows.endsAlike_shift hfollows (Nat.le_refl r.functions) fun _ _ => ends_follow_unique
  constructor
  · intro h
    obtain ⟨o', h', ho⟩ := (hends.follow h).resolve_left fun hlax => hlax.1
    rwa [ho.eq]
  · intro h
    obtain ⟨o', h', ho⟩ := hends.precede h
    rwa [← (ho.resolve_left fun hlax => hlax.1).eq]

end Shift

section References

variable {root t : String} {v : Value} {p q : List Segment} {e : PathEnd}

theorem leads_of_bound (hroot : c.get? root = some v) :
    hosts.Leads limit c r root p e n ↔ Path.Leads (hosts.Operand limit c r) v p r.functions e n := by
  constructor
  · intro h
    cases h with
    | unbound hnone =>
      rw [hroot] at hnone
      cases hnone
    | bound hsome h =>
      rw [hroot] at hsome
      cases hsome
      exact h
  · exact .bound hroot

theorem Leads.le (h : hosts.Leads limit c r root p e n) : r.functions ≤ n := by
  cases h with
  | unbound => exact Nat.le_refl _
  | bound _ h => exact h.le Operand.le

/-- A path leads where its rest leads from the value that its first part reaches. -/
theorem Leads.append_iff (h : hosts.Leads limit c r root p (.reached v) n) :
    hosts.Leads limit c r root (p ++ q) e n' ↔ Path.Leads (hosts.Operand limit c r) v q n e n' := by
  cases h with
  | bound hroot h =>
    rw [leads_of_bound hroot]
    exact ⟨h.of_append Operand.unique, h.append⟩

theorem Leads.append_of_missed (h : hosts.Leads limit c r root p .missed n) :
    hosts.Leads limit c r root (p ++ q) .missed n := by
  cases h with
  | unbound hroot => exact .unbound hroot
  | bound hroot h => exact .bound hroot h.append_of_missed

/-- Where a part of a path reaches a value, the rest may be followed from a new name for that value. -/
theorem gives_reference_append (hlimit : 1 ≤ limit) (hhosts : hosts.Blind r) (hc : c.KnownTo r)
    (h : hosts.Leads limit c r root p (.reached v) n) (ht : t ∉ Expr.segmentNames q) :
    hosts.Gives limit c (.reference root (p ++ q)) r o ↔ hosts.Gives limit (c.bind t v) (.reference t q) r o := by
  have hbound : (c.bind t v).get? t = some v := by
    rw [Context.get?, Context.bind, Entries.get?_insert, if_pos rfl]
  rw [gives_reference_iff hlimit, gives_reference_iff hlimit]
  simp only [h.append_iff, leads_of_bound hbound]
  exact (leads_shift hhosts hc ht v h.le).symm

/-- What comes after a miss does not matter. -/
theorem gives_reference_of_missed (hlimit : 1 ≤ limit) (h : hosts.Leads limit c r root p .missed n) :
    hosts.Gives limit c (.reference root (p ++ q)) r o ↔ o = .ok .null := by
  have hgives : hosts.Gives limit c (.reference root (p ++ q)) r (.ok .null) :=
    (gives_reference_iff hlimit).2 ⟨.missed, n, h.append_of_missed, rfl⟩
  constructor
  · exact fun h' => h'.unique hgives
  · rintro rfl
    exact hgives

/-- A reference fails with the error of an index that is met before any miss, and only so. -/
theorem gives_reference_error_iff (hlimit : 1 ≤ limit) {error : EvalError} :
    hosts.Gives limit c (.reference root p) r (.error error) ↔
      ∃ front x rest v n n', p = front ++ .index x :: rest ∧ hosts.Leads limit c r root front (.reached v) n ∧
        hosts.Operand limit c r x n (.error error) n' := by
  rw [gives_reference_iff hlimit]
  constructor
  · rintro ⟨e, n, h, he⟩
    cases e with
    | reached | missed => cases he
    | failed =>
      cases he
      cases h with
      | bound hroot h =>
        obtain ⟨front, x, rest, w, n', rfl, hfront, hx⟩ := Path.Leads.failed_iff.1 h
        exact ⟨front, x, rest, w, n', n, rfl, .bound hroot hfront, hx⟩
  · rintro ⟨front, x, rest, w, n, n', rfl, hfront, hx⟩
    exact ⟨.failed error, n', hfront.append_iff.2 (.fails hx), rfl⟩

end References

end Hosts

/--
A path leads from its root to a value, to a miss or to an error, and a reference gives what its path leads to. Where a
part of a path reaches a value, which may be null, the whole has the outcome of the rest of the path from any name that
the rest does not use, in the context in which this name is bound to the value. Where a part misses, the whole gives
null, whatever comes after. A reference fails with the error of an index that follows on a value that is reached, and
only so. All this holds under any host functions, but for the rest of a path from another name: there, host functions
may look at functions only by calling and comparing them.
-/
theorem Registry.outcome_reference_append {limit : Nat} (hlimit : 1 ≤ limit) (r : Registry) (c : Context)
    (root : String) (p q : List Segment) :
    (∃ e n, Hosts.standard.Leads limit c r root p e n ∧ r.outcome limit c (.reference root p) = e.outcome) ∧
    (∀ v n t, c.KnownTo r → Hosts.standard.Leads limit c r root p (.reached v) n → t ∉ Expr.segmentNames q →
      r.outcome limit c (.reference root (p ++ q)) = r.outcome limit (c.bind t v) (.reference t q)) ∧
    (∀ n, Hosts.standard.Leads limit c r root p .missed n →
      r.outcome limit c (.reference root (p ++ q)) = .ok .null) ∧
    (∀ error, r.outcome limit c (.reference root p) = .error error ↔
      ∃ front x rest v n n', p = front ++ .index x :: rest ∧
        Hosts.standard.Leads limit c r root front (.reached v) n ∧
        Hosts.standard.Operand limit c r x n (.error error) n') ∧
    ∀ hosts : Hosts,
      (∀ v n t, hosts.Blind r → c.KnownTo r → hosts.Leads limit c r root p (.reached v) n →
        t ∉ Expr.segmentNames q → ∀ o, hosts.Gives limit c (.reference root (p ++ q)) r o ↔
          hosts.Gives limit (c.bind t v) (.reference t q) r o) ∧
      (∀ n, hosts.Leads limit c r root p .missed n →
        ∀ o, hosts.Gives limit c (.reference root (p ++ q)) r o ↔ o = .ok .null) ∧
      ∀ error, hosts.Gives limit c (.reference root p) r (.error error) ↔
        ∃ front x rest v n n', p = front ++ .index x :: rest ∧ hosts.Leads limit c r root front (.reached v) n ∧
          hosts.Operand limit c r x n (.error error) n' := by
  refine ⟨?_, ?_, ?_, ?_, fun hosts => ⟨?_, ?_, ?_⟩⟩
  · exact (Hosts.gives_reference_iff hlimit).1 (Hosts.standard_gives_iff.2 rfl)
  · intro v n t hc h ht
    refine Hosts.standard_gives_iff.1 ?_
    rw [Hosts.gives_reference_append hlimit (Hosts.standard_blind r) hc h ht]
    exact Hosts.standard_gives_iff.2 rfl
  · exact fun n h => Hosts.standard_gives_iff.1 ((Hosts.gives_reference_of_missed hlimit h).2 rfl)
  · intro error
    rw [← Hosts.standard_gives_iff]
    exact Hosts.gives_reference_error_iff hlimit
  · exact fun v n t hhosts hc h ht o => Hosts.gives_reference_append hlimit hhosts hc h ht
  · exact fun n h o => Hosts.gives_reference_of_missed hlimit h
  · exact fun error => Hosts.gives_reference_error_iff hlimit

/-- A path whose first index makes a function, and whose second one is between minus one and zero: the item that the
first part reaches may be named. A property that there is not absorbs an index that fails, and on a list the index
fails. -/
theorem Registry.outcome_reference_append_apply :
    let r : Registry := ⟨[], 1⟩
    let row := Value.list [.string "x"]
    let c := (Context.empty.bind "apply" (.function (.host 0 .apply))).bind "a" (.map [("b", .list [.null, row])])
    let p : List Segment :=
      [.property "b", .index (.call "apply" [.lambda "i" (.reference "i" []), .number 1.5])]
    let q : List Segment := [.index (.unary .neg (.number 0.5))]
    let fails : Segment := .index (.unary .neg (.string "s"))
    (c.KnownTo r ∧ Hosts.standard.Leads 4 c r "a" p (.reached row) 2 ∧
      r.outcome 4 c (.reference "a" (p ++ q)) = r.outcome 4 (c.bind "t" row) (.reference "t" q) ∧
      Hosts.standard.Gives 4 c (.reference "a" (p ++ q)) r (.ok (.string "x"))) ∧
    (Hosts.standard.Leads 4 c r "a" [.property "z"] .missed 1 ∧
      r.outcome 4 c (.reference "a" ([.property "z"] ++ [fails])) = .ok .null) ∧
    r.outcome 4 c (.reference "a" [.property "b", fails]) = .error (.operand .string) := by
  intro r row c p q fails
  have hknown : c.KnownTo r := by
    intro f hf
    obtain rfl : f = .host 0 .apply := List.mem_singleton.1 hf
    exact .host .apply Nat.one_pos
  have hfirst (x : Float) : Hosts.standard.Operand 4 c r (.call "apply" [.lambda "i" (.reference "i" []), .number x])
      1 (.ok (.number x)) 2 := ⟨4, rfl⟩
  have hsecond (x : Float) : Hosts.standard.Operand 4 (c.bind "t" row) r (.unary .neg (.number x))
      1 (.ok (.number (-x))) 1 := ⟨4, rfl⟩
  have hone : Number.integerPart? 1.5 = some ((1 : Nat) : Int) := by
    have hdyadic : Number.Dyadic.ofFloat? 1.5 = some ⟨false, 3 * 2 ^ 51, -52⟩ := by decide +kernel
    exact Number.integerPart?_eq hdyadic
  have hzero : Number.integerPart? (-0.5) = some ((0 : Nat) : Int) := by
    have hdyadic : Number.Dyadic.ofFloat? (-0.5) = some ⟨true, 2 ^ 52, -53⟩ := by decide +kernel
    exact Number.integerPart?_eq hdyadic
  have hreached : Hosts.standard.Leads 4 c r "a" p (.reached row) 2 :=
    .bound rfl (.property (.map rfl) (.item (hfirst 1.5) (.list hone rfl) .here))
  have hmissed : Hosts.standard.Leads 4 c r "a" [.property "z"] .missed 1 := by
    refine .bound rfl (.noProperty ?_)
    rintro w ⟨h⟩
    cases h
  have hlist : Hosts.standard.Leads 4 c r "a" [.property "b"] (.reached (.list [.null, row])) 1 :=
    .bound rfl (.property (.map rfl) .here)
  have hfails : Hosts.standard.Operand 4 c r (.unary .neg (.string "s")) 1 (.error (.operand .string)) 1 :=
    ⟨4, rfl⟩
  have hnamed : Hosts.standard.Gives 4 (c.bind "t" row) (.reference "t" q) r (.ok (.string "x")) :=
    (Hosts.gives_reference_iff (by decide)).2
      ⟨_, _, .bound rfl (.item (hsecond 0.5) (.list hzero rfl) .here), rfl⟩
  have hnot : "t" ∉ Expr.segmentNames q := by decide
  have happend := Registry.outcome_reference_append (by decide : 1 ≤ 4) r c "a"
  obtain ⟨-, hreach, -, -, hhosts⟩ := happend p q
  obtain ⟨-, -, hmiss, -⟩ := happend [.property "z"] [fails]
  obtain ⟨-, -, -, herror, -⟩ := happend [.property "b", fails] []
  refine ⟨⟨hknown, hreached, hreach row 2 "t" hknown hreached hnot, ?_⟩, ⟨hmissed, hmiss 1 hmissed⟩, ?_⟩
  · exact ((hhosts _).1 row 2 "t" (Hosts.standard_blind r) hknown hreached hnot _).2 hnamed
  · exact (herror _).2 ⟨[.property "b"], _, [], _, 1, 1, rfl, hlist, hfails⟩

end RuleLang
