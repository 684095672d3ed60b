import Mathlib
import RuleLang.Context
import RuleLang.Proofs.Value.Equality

/-!
# Building a context

However names are bound, a context has each of them once, at the place of its first binding and with the value of its
last. The order shows in the entries and nowhere else: equality of contexts looks at names and values only. Bindings of
two names may therefore be exchanged, and what tells the two contexts apart is not their order but a NaN, with which no
context is equal even to itself.
-/

namespace RuleLang

namespace Context

/-- What a context `c` is after bindings, the last of them last. -/
structure Binds (c : Context) (pairs : List (String × Value)) (d : Context) : Prop where
  distinct : d.entries.Distinct
  names : d.entries.names = (c.entries.names ++ pairs.map Prod.fst).eraseDups
  get? : ∀ name, d.get? name = (Entries.get? name pairs.reverse).or (c.get? name)
  size : d.size = (c.entries.names ++ pairs.map Prod.fst).toFinset.card

/-- Contexts that differ in the order of their entries only, and cannot be told apart by what they are equal to. -/
structure Reordered (c d : Context) : Prop where
  entries : c.entries.Perm d.entries
  get? : ∀ name, c.get? name = d.get? name
  same : ∀ e : Context, e.entries.Distinct → c.same e = d.same e ∧ e.same c = e.same d

section Binding

variable {c d : Context} {pairs : List (String × Value)}

theorem bindAll_eq_foldl (c : Context) (pairs : List (String × Value)) :
    c.bindAll pairs = pairs.foldl (fun c (name, v) => c.bind name v) c := by
  induction pairs generalizing c with
  | nil => rfl
  | cons pair pairs ih => exact ih (c.bind pair.1 pair.2)

theorem ofList_eq_bindAll (pairs : List (String × Value)) : ofList pairs = empty.bindAll pairs := rfl

/-- As many entries as there are names bound. -/
theorem size_eq_card {names : List String} (h : c.entries.Distinct) (hnames : c.entries.names = names.eraseDups) :
    c.size = names.toFinset.card := by
  have hfinset : names.toFinset = c.entries.names.toFinset := by
    ext name
    rw [List.mem_toFinset, List.mem_toFinset, hnames, List.mem_eraseDups]
  rw [hfinset, List.toFinset_card_of_nodup h, Entries.names, List.length_map, size]

theorem binds_bindAll (h : c.entries.Distinct) (pairs : List (String × Value)) : c.Binds pairs (c.bindAll pairs) where
  distinct := h.insertAll pairs
  names := Entries.names_insertAll h pairs
  get? := Entries.get?_insertAll c.entries pairs
  size := size_eq_card (h.insertAll pairs) (Entries.names_insertAll h pairs)

/-- The contexts with unique names are those that can be made from pairs. -/
theorem distinct_iff_exists_ofList : c.entries.Distinct ↔ ∃ pairs, c = ofList pairs := by
  constructor
  · intro h
    refine ⟨c.entries, ?_⟩
    rw [ofList, h.ofList_eq]
  · rintro ⟨pairs, rfl⟩
    exact Entries.distinct_ofList pairs

theorem bind_bindAll_bind (c : Context) (pairs : List (String × Value)) (name : String) (x y : Value) :
    ((c.bind name x).bindAll pairs).bind name y = (c.bind name y).bindAll (pairs.filter fun pair => pair.1 ≠ name) := by
  have hname : name ∈ (c.entries.insert name x).names := by
    rw [Entries.names_insert]
    split
    · assumption
    · exact List.mem_append_right _ (List.mem_singleton_self name)
  have hentries : ((c.entries.insert name x).insertAll pairs).insert name y =
      ((c.entries.insert name x).insert name y).insertAll (pairs.filter fun pair => pair.1 ≠ name) :=
    Entries.insert_insertAll hname pairs
  rw [Entries.insert_insert_self] at hentries
  exact congrArg Context.mk hentries

end Binding

section Equality

variable {c d : Context} {a b : String} {x y : Value}

/-- Contexts with unique names are equal if they agree on every name. -/
theorem same_iff (hc : c.entries.Distinct) (hd : d.entries.Distinct) :
    c.same d = true ↔ ∀ name, Option.Rel (fun v w => v.same w = true) (c.get? name) (d.get? name) :=
  Value.map_same_map_iff hc hd

theorem Reordered.of_get? (hc : c.entries.Distinct) (hd : d.entries.Distinct)
    (hget : ∀ name, c.get? name = d.get? name) : c.Reordered d := by
  refine ⟨Entries.perm_of_get?_eq hc hd hget, hget, fun e he => ⟨?_, ?_⟩⟩
  · rw [Bool.eq_iff_iff, same_iff hc he, same_iff hd he]
    simp only [hget]
  · rw [Bool.eq_iff_iff, same_iff he hc, same_iff he hd]
    simp only [hget]

/-- A context and another order of it are equal unless there is a NaN in them. -/
theorem Reordered.same_iff_no_nan (h : c.Reordered d) (hc : (Value.map c.entries).Distinct) :
    c.same d = true ↔ ∀ n, (Value.number n).Inside (.map c.entries) → n.isNaN = false := by
  rw [← (h.same c hc.keys).2]
  exact Value.same_self_iff hc

theorem get?_bind (c : Context) (a : String) (x : Value) (name : String) :
    (c.bind a x).get? name = if a = name then some x else c.get? name :=
  Entries.get?_insert a x c.entries name

theorem reordered_bind_bind (hc : c.entries.Distinct) (hab : a ≠ b) :
    ((c.bind a x).bind b y).Reordered ((c.bind b y).bind a x) := by
  refine .of_get? ((hc.insert a x).insert b y) ((hc.insert b y).insert a x) fun name => ?_
  rw [get?_bind, get?_bind, get?_bind, get?_bind]
  by_cases ha : a = name
  · subst ha
    rw [if_pos rfl, if_pos rfl, if_neg hab.symm]
  · rw [if_neg ha, if_neg ha]

/-- A context whose values have unique keys at any depth stays one. -/
theorem distinct_map_bind (hc : (Value.map c.entries).Distinct) (hx : x.Distinct) :
    (Value.map (c.bind a x).entries).Distinct := by
  obtain ⟨hkeys, hvalues⟩ := Value.distinct_map_iff.1 hc
  refine Value.distinct_map_iff.2 ⟨hkeys.insert a x, fun entry hentry => ?_⟩
  rcases Entries.mem_insert hentry with heq | hmem
  · rw [heq]
    exact hx
  · exact hvalues entry hmem

end Equality

/--
The contexts with unique names are those that are made from pairs. Bindings keep the names unique and in the order in
which they were first bound; each name has the value bound last, and the size is the number of names. To make a context
from pairs is to bind them one after the other. Two contexts are equal exactly if they bind the same names to equal
values. Two names are bound in either order with the same values, and the two contexts are equal to the same contexts;
they are equal to each other exactly if no NaN is in them. A name that is bound again has its first place and its last
value, as if it had been bound once.
-/
theorem bindings_keep_places :
    (∀ c : Context, c.entries.Distinct ↔ ∃ pairs, c = ofList pairs) ∧
    (∀ (c : Context) pairs, c.entries.Distinct → c.Binds pairs (pairs.foldl (fun c (name, v) => c.bind name v) c)) ∧
    (∀ pairs, empty.Binds pairs (ofList pairs) ∧
      ofList pairs = pairs.foldl (fun c (name, v) => c.bind name v) empty) ∧
    (∀ c d : Context, c.entries.Distinct → d.entries.Distinct → (c.same d = true ↔
      ∀ name, Option.Rel (fun v w => v.same w = true) (c.get? name) (d.get? name))) ∧
    (∀ (c : Context) a b x y, c.entries.Distinct → a ≠ b →
      let d := (c.bind a x).bind b y
      let e := (c.bind b y).bind a x
      d.Reordered e ∧ ((Value.map c.entries).Distinct → x.Distinct → y.Distinct →
        (d.same e = true ↔ ∀ n, (Value.number n).Inside (.map d.entries) → n.isNaN = false))) ∧
    ∀ (c : Context) pairs a x y, ((c.bind a x).bindAll pairs).bind a y =
      (c.bind a y).bindAll (pairs.filter fun pair => pair.1 ≠ a) := by
  refine ⟨fun _ => distinct_iff_exists_ofList, fun c pairs hc => ?_, fun pairs => ?_, fun _ _ => same_iff, ?_, ?_⟩
  · rw [← bindAll_eq_foldl]
    exact binds_bindAll hc pairs
  · rw [← bindAll_eq_foldl, ← ofList_eq_bindAll]
    exact ⟨binds_bindAll Entries.distinct_nil pairs, rfl⟩
  · intro c a b x y hc hab d e
    have hreordered : d.Reordered e := reordered_bind_bind hc hab
    refine ⟨hreordered, fun hdeep hx hy => ?_⟩
    exact hreordered.same_iff_no_nan (distinct_map_bind (distinct_map_bind hdeep hx) hy)
  · exact bind_bindAll_bind

/-- A name that is bound again behind another one, and two bindings in either order. -/
theorem bindings_keep_places_again :
    let text := Value.list [.string "x"]
    let pairs := [("a", Value.null), ("b", .number 0), ("a", text)]
    let c := empty.bind "c" .null
    let d := (c.bind "a" text).bind "b" (.number 0)
    let e := (c.bind "b" (.number 0)).bind "a" text
    (c.entries.Distinct ∧ (Value.map c.entries).Distinct ∧ d.entries.Distinct ∧ e.entries.Distinct) ∧
    c.Binds pairs (pairs.foldl (fun c (name, v) => c.bind name v) c) ∧
    ((c.bind "a" .null).bindAll [("b", .number 0)]).bind "a" text = d ∧
    d.entries ≠ e.entries ∧ d.Reordered e ∧ d.same e = true ∧
    ∀ name, Option.Rel (fun v w => v.same w = true) (d.get? name) (e.get? name) := by
  intro text pairs c d e
  obtain ⟨hmade, hbinds, -, hequal, hreordered, hagain⟩ := bindings_keep_places
  have hc : c.entries.Distinct := (hmade c).2 ⟨[("c", .null)], rfl⟩
  have hnull : Value.null.Distinct := .of_leaf (by simp) (by simp)
  have hzero : (Value.number 0).Distinct := .of_leaf (by simp) (by simp)
  have hdeep : (Value.map c.entries).Distinct :=
    distinct_map_bind (Value.distinct_map_iff.2 ⟨Entries.distinct_nil, List.forall_mem_nil _⟩) hnull
  have htext : text.Distinct :=
    Value.distinct_list_iff.2 (List.forall_mem_singleton.2 (.of_leaf (by simp) (by simp)))
  have hd : d.entries.Distinct := (hc.insert "a" text).insert "b" (.number 0)
  have he : e.entries.Distinct := (hc.insert "b" (.number 0)).insert "a" text
  have hentries : d.entries = [("c", .null), ("a", text), ("b", .number 0)] := by
    simp [d, c, empty, bind, Entries.insert]
  have hentries' : e.entries = [("c", .null), ("b", .number 0), ("a", text)] := by
    simp [e, c, empty, bind, Entries.insert]
  obtain ⟨horder, hsame⟩ := hreordered c "a" "b" text (.number 0) hc (by decide)
  have hself : d.same e = true := by
    refine (hsame hdeep htext hzero).2 fun n hn => ?_
    rw [hentries] at hn
    obtain ⟨key, v, hv, hn⟩ := (Value.inside_map_iff.1 hn).resolve_left (by simp)
    simp only [List.mem_cons, List.not_mem_nil, or_false, Prod.mk.injEq] at hv
    rcases hv with ⟨-, rfl⟩ | ⟨-, rfl⟩ | ⟨-, rfl⟩
    · cases hn
    · obtain ⟨v, hv, hn⟩ := (Value.inside_list_iff.1 hn).resolve_left (by simp)
      rw [List.mem_singleton.1 hv] at hn
      cases hn
    · cases hn
      decide +kernel
  refine ⟨⟨hc, hdeep, hd, he⟩, hbinds c pairs hc, hagain c [("b", .number 0)] "a" .null text, ?_, horder, hself, ?_⟩
  · rw [hentries, hentries']
    simp [text]
  · exact (hequal d e hd he).1 hself

/-- Two names bound in either order, with a NaN under one of them: the values are the same, and the contexts are not
equal, as neither is to itself. -/
theorem bind_order_shown_by_nan :
    let d := (empty.bind "a" (.number Number.nan)).bind "b" (.number 1)
    let e := (empty.bind "b" (.number 1)).bind "a" (.number Number.nan)
    "a" ≠ "b" ∧ (∀ name, d.get? name = e.get? name) ∧ d.same e = false ∧ d.same d = false := by
  intro d e
  have hnan : (Number.nan == Number.nan) = false := by decide +kernel
  refine ⟨by decide, (reordered_bind_bind Entries.distinct_nil (by decide)).get?, ?_, ?_⟩
  · simp [d, e, empty, bind, same, Entries.insert, Value.same, Value.includedIn, Entries.get?, hnan]
  · simp [d, empty, bind, same, Entries.insert, Value.same, Value.includedIn, Entries.get?, hnan]

end Context

end RuleLang
