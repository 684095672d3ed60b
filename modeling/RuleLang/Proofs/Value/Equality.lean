import Mathlib
import RuleLang.Proofs.Entries
import RuleLang.Proofs.Number.Literal
import RuleLang.Proofs.Value.Related

/-!
# The laws of equality

Equality of values is symmetric and transitive, and a value equals itself unless there is a NaN in it. The comparison
of maps looks from one side only: as many entries on either side, and for each entry on the left an equal one under the
same key on the right. Where keys are unique, this is the same as agreement on every key. For each kind of value one
lemma says what equals it, and the laws follow from these by induction on the items and entries inside.
-/

namespace RuleLang.Value

/-- A value is in itself, and what is in an item of a list or under a key of a map is in that. What closures have
captured is not. -/
inductive Inside : Value → Value → Prop
  | self (v : Value) : Inside v v
  | item {u v : Value} {items : List Value} : v ∈ items → Inside u v → Inside u (.list items)
  | entry {u v : Value} {key : String} {entries : List (String × Value)} :
      (key, v) ∈ entries → Inside u v → Inside u (.map entries)

/-- Every map in a value has each of its keys once. -/
def Distinct (v : Value) : Prop :=
  ∀ entries, (Value.map entries).Inside v → Entries.Distinct entries

section Nesting

/-- What holds of a value if it holds of its items or entries holds of all values. -/
@[elab_as_elim]
theorem nested {P : Value → Prop} (null : P .null) (boolean : ∀ b, P (.boolean b)) (number : ∀ x, P (.number x))
    (string : ∀ s, P (.string s)) (list : ∀ items, (∀ v ∈ items, P v) → P (.list items))
    (map : ∀ entries, (∀ key v, (key, v) ∈ entries → P v) → P (.map entries)) (function : ∀ f, P (.function f))
    (v : Value) : P v := by
  apply @Value.rec P (fun _ => True) (fun items => ∀ v ∈ items, P v)
    (fun entries => ∀ key v, (key, v) ∈ entries → P v) (fun entry => P entry.2)
  case null => exact null
  case boolean => exact boolean
  case number => exact number
  case string => exact string
  case list => exact list
  case map => exact map
  case function => exact fun f _ => function f
  case host | closure => intros; trivial
  case nil | nil => exact nofun
  case cons => exact fun v items hv hitems => List.forall_mem_cons.2 ⟨hv, hitems⟩
  case cons =>
    intro entry entries hentry hentries key v hmem
    rcases List.mem_cons.1 hmem with heq | hmem
    · rw [← heq] at hentry
      exact hentry
    · exact hentries key v hmem
  case mk => exact fun _ _ hv => hv

variable {u v : Value} {key : String} {items : List Value} {entries : List (String × Value)}

theorem inside_list_iff : u.Inside (.list items) ↔ u = .list items ∨ ∃ v ∈ items, u.Inside v := by
  constructor
  · intro h
    cases h with
    | self => exact .inl rfl
    | item hv hu => exact .inr ⟨_, hv, hu⟩
  · rintro (rfl | ⟨v, hv, hu⟩)
    · exact .self _
    · exact .item hv hu

theorem inside_map_iff :
    u.Inside (.map entries) ↔ u = .map entries ∨ ∃ key v, (key, v) ∈ entries ∧ u.Inside v := by
  constructor
  · intro h
    cases h with
    | self => exact .inl rfl
    | entry hv hu => exact .inr ⟨_, _, hv, hu⟩
  · rintro (rfl | ⟨key, v, hv, hu⟩)
    · exact .self _
    · exact .entry hv hu

/-- What is no list and no map has no maps in it. -/
theorem Distinct.of_leaf (hlist : ∀ items, v ≠ .list items) (hmap : ∀ entries, v ≠ .map entries) : v.Distinct := by
  intro entries h
  cases h with
  | self => exact absurd rfl (hmap entries)
  | item => exact absurd rfl (hlist _)
  | entry => exact absurd rfl (hmap _)

theorem distinct_list_iff : (Value.list items).Distinct ↔ ∀ v ∈ items, v.Distinct := by
  constructor
  · exact fun h v hv entries hentries => h entries (.item hv hentries)
  · intro h entries hentries
    rcases inside_list_iff.1 hentries with hlist | ⟨v, hv, hentries⟩
    · cases hlist
    · exact h v hv entries hentries

theorem distinct_map_iff :
    (Value.map entries).Distinct ↔ Entries.Distinct entries ∧ ∀ entry ∈ entries, entry.2.Distinct := by
  constructor
  · exact fun h => ⟨h entries (.self _), fun entry hv entries hentries => h entries (.entry hv hentries)⟩
  · rintro ⟨hkeys, hvalues⟩ entries' hentries
    rcases inside_map_iff.1 hentries with hmap | ⟨key, v, hv, hentries⟩
    · cases hmap
      exact hkeys
    · exact hvalues (key, v) hv entries' hentries

theorem Distinct.item (h : (Value.list items).Distinct) (hv : v ∈ items) : v.Distinct :=
  distinct_list_iff.1 h v hv

theorem Distinct.entry (h : (Value.map entries).Distinct) (hv : (key, v) ∈ entries) : v.Distinct :=
  (distinct_map_iff.1 h).2 (key, v) hv

theorem Distinct.keys (h : (Value.map entries).Distinct) : Entries.Distinct entries :=
  (distinct_map_iff.1 h).1

end Nesting

section Kinds

/-! What equals a value of each kind. -/

variable {w : Value} {items : List Value} {entries : List (String × Value)}

theorem null_same_iff : Value.null.same w = true ↔ w = .null := by
  cases w <;> simp [same]

theorem boolean_same_iff {b : Bool} : (Value.boolean b).same w = true ↔ w = .boolean b := by
  cases w with
  | boolean c =>
    rw [same, beq_iff_eq, Value.boolean.injEq]
    exact eq_comm
  | _ => simp [same]

theorem number_same_iff {x : Float} : (Value.number x).same w = true ↔ ∃ y, w = .number y ∧ (x == y) = true := by
  cases w <;> simp [same]

theorem string_same_iff {s : String} : (Value.string s).same w = true ↔ w = .string s := by
  cases w with
  | string t =>
    rw [same, beq_iff_eq, Value.string.injEq]
    exact eq_comm
  | _ => simp [same]

theorem function_same_iff {f : Function} :
    (Value.function f).same w = true ↔ ∃ g, w = .function g ∧ f.id = g.id := by
  cases w <;> simp [same]

theorem sameItems_iff {items' : List Value} :
    sameItems items items' = true ↔ Paired (fun v w => v.same w = true) items items' := by
  induction items generalizing items' with
  | nil =>
    cases items' with
    | nil => exact ⟨fun _ => .nil, fun _ => rfl⟩
    | cons => exact ⟨nofun, nofun⟩
  | cons v items ih =>
    cases items' with
    | nil => exact ⟨nofun, nofun⟩
    | cons w items' =>
      rw [sameItems, Bool.and_eq_true, ih]
      constructor
      · exact fun h => .cons h.1 h.2
      · intro h
        cases h with
        | cons hv h => exact ⟨hv, h⟩

theorem list_same_iff : (Value.list items).same w = true ↔
    ∃ items', w = .list items' ∧ Paired (fun v w => v.same w = true) items items' := by
  cases w <;> simp [same, sameItems_iff]

theorem includedIn_iff {entries' : List (String × Value)} : includedIn entries entries' = true ↔
    ∀ key v, (key, v) ∈ entries → ∃ w, Entries.get? key entries' = some w ∧ v.same w = true := by
  induction entries with
  | nil => exact ⟨fun _ => nofun, fun _ => rfl⟩
  | cons entry entries ih =>
    obtain ⟨key, v⟩ := entry
    have hfirst : includedIn ((key, v) :: entries) entries' =
        ((Entries.get? key entries').any v.same && includedIn entries entries') := by
      rw [includedIn]
      cases Entries.get? key entries' <;> rfl
    rw [hfirst, Bool.and_eq_true, Option.any_eq_true, ih]
    constructor
    · intro h key' v' hmem
      rcases List.mem_cons.1 hmem with heq | hmem
      · cases heq
        exact h.1
      · exact h.2 key' v' hmem
    · intro h
      exact ⟨h key v (List.mem_cons_self ..), fun key' v' hmem => h key' v' (List.mem_cons_of_mem _ hmem)⟩

theorem map_same_iff : (Value.map entries).same w = true ↔
    ∃ entries', w = .map entries' ∧ entries.length = entries'.length ∧
      ∀ key v, (key, v) ∈ entries → ∃ w, Entries.get? key entries' = some w ∧ v.same w = true := by
  cases w <;> simp [same, includedIn_iff]

/-- Maps with unique keys are equal if they agree on every key. -/
theorem map_same_map_iff {entries' : List (String × Value)} (h : Entries.Distinct entries)
    (h' : Entries.Distinct entries') : (Value.map entries).same (.map entries') = true ↔
      ∀ key, Option.Rel (fun v w => v.same w = true) (Entries.get? key entries) (Entries.get? key entries') := by
  constructor
  · intro hsame key
    obtain ⟨_, hmap, hlength, hentries⟩ := map_same_iff.1 hsame
    cases hmap
    -- equally many distinct keys, so no key on the right is missing on the left
    have hsubset : Entries.names entries ⊆ Entries.names entries' := by
      intro name hname
      obtain ⟨v, hv⟩ := Entries.exists_get?_of_mem_names hname
      obtain ⟨w, hw, -⟩ := hentries name v (Entries.mem_of_get? hv)
      exact Entries.mem_names_of_get? hw
    have hnames := Entries.names_perm h hsubset (Nat.le_of_eq hlength.symm)
    cases hv : Entries.get? key entries with
    | some v =>
      obtain ⟨w, hw, hvw⟩ := hentries key v (Entries.mem_of_get? hv)
      rw [hw]
      exact .some hvw
    | none =>
      cases hw : Entries.get? key entries' with
      | none => exact .none
      | some w =>
        obtain ⟨v, hv'⟩ := Entries.exists_get?_of_mem_names (hnames.mem_iff.2 (Entries.mem_names_of_get? hw))
        rw [hv] at hv'
        cases hv'
  · intro hrel
    have hentries (key : String) (v : Value) (hv : (key, v) ∈ entries) :
        ∃ w, Entries.get? key entries' = some w ∧ v.same w = true := by
      have hkey := hrel key
      rw [h.get?_eq hv] at hkey
      generalize Entries.get? key entries' = found at hkey
      cases hkey with
      | some hvw => exact ⟨_, rfl, hvw⟩
    have hmem (name : String) : name ∈ Entries.names entries ↔ name ∈ Entries.names entries' := by
      have hname := hrel name
      constructor
      · intro hin
        obtain ⟨v, hv⟩ := Entries.exists_get?_of_mem_names hin
        obtain ⟨w, hw, -⟩ := hentries name v (Entries.mem_of_get? hv)
        exact Entries.mem_names_of_get? hw
      · intro hin
        obtain ⟨w, hw⟩ := Entries.exists_get?_of_mem_names hin
        rw [hw] at hname
        generalize hfound : Entries.get? name entries = found at hname
        cases hname with
        | some => exact Entries.mem_names_of_get? hfound
    have hlength : (Entries.names entries).length = (Entries.names entries').length :=
      ((List.perm_ext_iff_of_nodup h h').2 hmem).length_eq
    unfold Entries.names at hlength
    rw [List.length_map, List.length_map] at hlength
    exact map_same_iff.2 ⟨entries', rfl, hlength, hentries⟩

end Kinds

section Laws

variable {v w : Value}

/-- The other relations of equality are the same. -/
theorem looseEquals_eq_same (v w : Value) : v.looseEquals w = v.same w := by
  cases v <;> cases w <;> simp only [looseEquals, same]

theorem kind_eq_of_same (h : v.same w = true) : v.kind = w.kind := by
  cases v <;> cases w <;> first | rfl | simp [same] at h

theorem strictEquals_eq_same (v w : Value) : v.strictEquals w = v.same w := by
  unfold strictEquals
  cases h : v.same w with
  | false => rw [Bool.and_false]
  | true => rw [kind_eq_of_same h, beq_self_eq_true, Bool.and_true]

theorem truthy_eq_of_same (h : v.same w = true) : v.truthy = w.truthy := by
  cases v with
  | null => rw [null_same_iff.1 h]
  | boolean b => rw [boolean_same_iff.1 h]
  | string s => rw [string_same_iff.1 h]
  | number x =>
    obtain ⟨y, rfl, hxy⟩ := number_same_iff.1 h
    have hzero : (x == 0) = (y == 0) := by
      rw [Bool.eq_iff_iff]
      exact ⟨Number.beq_trans (Number.beq_symm hxy), Number.beq_trans hxy⟩
    rw [truthy, truthy, hzero]
  | list items =>
    obtain ⟨items', rfl, hitems⟩ := list_same_iff.1 h
    cases hitems <;> rfl
  | map entries =>
    obtain ⟨entries', rfl, hlength, -⟩ := map_same_iff.1 h
    have hempty : entries.isEmpty = entries'.isEmpty := by
      rw [Bool.eq_iff_iff, List.isEmpty_iff_length_eq_zero, List.isEmpty_iff_length_eq_zero, hlength]
    rw [truthy, truthy, hempty]
  | function f =>
    obtain ⟨g, rfl, -⟩ := function_same_iff.1 h
    rfl

theorem same_trans {u v w : Value} (huv : u.same v = true) (hvw : v.same w = true) : u.same w = true := by
  induction u using Value.nested generalizing v w with
  | null =>
    rw [null_same_iff.1 huv] at hvw
    exact hvw
  | boolean b =>
    rw [boolean_same_iff.1 huv] at hvw
    exact hvw
  | string s =>
    rw [string_same_iff.1 huv] at hvw
    exact hvw
  | number x =>
    obtain ⟨y, rfl, hxy⟩ := number_same_iff.1 huv
    obtain ⟨z, rfl, hyz⟩ := number_same_iff.1 hvw
    exact number_same_iff.2 ⟨z, rfl, Number.beq_trans hxy hyz⟩
  | list items ih =>
    obtain ⟨items', rfl, hitems⟩ := list_same_iff.1 huv
    obtain ⟨items'', rfl, hitems'⟩ := list_same_iff.1 hvw
    exact list_same_iff.2 ⟨items'', rfl, hitems.trans hitems' fun u hu _ _ huv hvw => ih u hu huv hvw⟩
  | map entries ih =>
    obtain ⟨entries', rfl, hlength, hentries⟩ := map_same_iff.1 huv
    obtain ⟨entries'', rfl, hlength', hentries'⟩ := map_same_iff.1 hvw
    refine map_same_iff.2 ⟨entries'', rfl, hlength.trans hlength', fun key u hu => ?_⟩
    obtain ⟨v, hv, huv⟩ := hentries key u hu
    obtain ⟨w, hw, hvw⟩ := hentries' key v (Entries.mem_of_get? hv)
    exact ⟨w, hw, ih key u hu huv hvw⟩
  | function f =>
    obtain ⟨g, rfl, hfg⟩ := function_same_iff.1 huv
    obtain ⟨h, rfl, hgh⟩ := function_same_iff.1 hvw
    exact function_same_iff.2 ⟨h, rfl, hfg.trans hgh⟩

/-- Agreement on every key can be read from either side. -/
theorem same_symm {v w : Value} (hv : v.Distinct) (hw : w.Distinct) (h : v.same w = true) : w.same v = true := by
  induction v using Value.nested generalizing w with
  | null =>
    rw [null_same_iff.1 h]
    exact null_same_iff.2 rfl
  | boolean b =>
    rw [boolean_same_iff.1 h]
    exact boolean_same_iff.2 rfl
  | string s =>
    rw [string_same_iff.1 h]
    exact string_same_iff.2 rfl
  | number x =>
    obtain ⟨y, rfl, hxy⟩ := number_same_iff.1 h
    exact number_same_iff.2 ⟨x, rfl, Number.beq_symm hxy⟩
  | list items ih =>
    obtain ⟨items', rfl, hitems⟩ := list_same_iff.1 h
    refine list_same_iff.2 ⟨items, rfl, hitems.symm fun v hv' w hw' => ?_⟩
    exact ih v hv' (hv.item hv') (hw.item hw')
  | map entries ih =>
    obtain ⟨entries', rfl, -⟩ := map_same_iff.1 h
    rw [map_same_map_iff hv.keys hw.keys] at h
    rw [map_same_map_iff hw.keys hv.keys]
    intro key
    have hkey := h key
    generalize hfound : Entries.get? key entries = a at hkey
    generalize hfound' : Entries.get? key entries' = b at hkey
    cases hkey with
    | none => exact .none
    | some hvw =>
      have hmem := Entries.mem_of_get? hfound
      exact .some (ih key _ hmem (hv.entry hmem) (hw.entry (Entries.mem_of_get? hfound')) hvw)
  | function f =>
    obtain ⟨g, rfl, hfg⟩ := function_same_iff.1 h
    exact function_same_iff.2 ⟨f, rfl, hfg.symm⟩

theorem same_comm {v w : Value} (hv : v.Distinct) (hw : w.Distinct) : v.same w = w.same v := by
  rw [Bool.eq_iff_iff]
  exact ⟨same_symm hv hw, same_symm hw hv⟩

/-- A value equals itself unless there is a NaN in it. -/
theorem same_self_iff {v : Value} (hv : v.Distinct) :
    v.same v = true ↔ ∀ x, (Value.number x).Inside v → x.isNaN = false := by
  induction v using Value.nested with
  | null => exact ⟨fun _ _ => nofun, fun _ => null_same_iff.2 rfl⟩
  | boolean b => exact ⟨fun _ _ => nofun, fun _ => boolean_same_iff.2 rfl⟩
  | string s => exact ⟨fun _ _ => nofun, fun _ => string_same_iff.2 rfl⟩
  | function f => exact ⟨fun _ _ => nofun, fun _ => function_same_iff.2 ⟨f, rfl, rfl⟩⟩
  | number x =>
    constructor
    · intro h y hy
      obtain ⟨_, hnumber, hx⟩ := number_same_iff.1 h
      cases hnumber
      cases hy
      exact Number.beq_self_iff.1 hx
    · intro h
      exact number_same_iff.2 ⟨x, rfl, Number.beq_self_iff.2 (h x (.self _))⟩
  | list items ih =>
    have hself : (Value.list items).same (.list items) = true ↔ ∀ v ∈ items, v.same v = true := by
      rw [same, sameItems_iff, Paired.self_iff]
    rw [hself]
    constructor
    · intro h x hx
      rcases inside_list_iff.1 hx with hx | ⟨v, hmem, hx⟩
      · cases hx
      · exact (ih v hmem (hv.item hmem)).1 (h v hmem) x hx
    · exact fun h v hmem => (ih v hmem (hv.item hmem)).2 fun x hx => h x (.item hmem hx)
  | map entries ih =>
    have hself : (Value.map entries).same (.map entries) = true ↔
        ∀ key v, (key, v) ∈ entries → v.same v = true := by
      constructor
      · intro h key v hmem
        obtain ⟨_, hmap, -, hentries⟩ := map_same_iff.1 h
        cases hmap
        obtain ⟨w, hw, hvw⟩ := hentries key v hmem
        rw [hv.keys.get?_eq hmem] at hw
        cases hw
        exact hvw
      · intro h
        exact map_same_iff.2 ⟨entries, rfl, rfl, fun key v hmem => ⟨v, hv.keys.get?_eq hmem, h key v hmem⟩⟩
    rw [hself]
    constructor
    · intro h x hx
      rcases inside_map_iff.1 hx with hx | ⟨key, v, hmem, hx⟩
      · cases hx
      · exact (ih key v hmem (hv.entry hmem)).1 (h key v hmem) x hx
    · exact fun h key v hmem => (ih key v hmem (hv.entry hmem)).2 fun x hx => h x (.entry hmem hx)

theorem map_same_perm {entries entries' fresh fresh' : List (String × Value)} (h : Entries.Distinct entries)
    (h' : Entries.Distinct entries') (hperm : entries.Perm fresh) (hperm' : entries'.Perm fresh') :
    (Value.map entries).same (.map entries') = (Value.map fresh).same (.map fresh') := by
  have hfresh : Entries.Distinct fresh := (hperm.map Prod.fst).nodup h
  have hfresh' : Entries.Distinct fresh' := (hperm'.map Prod.fst).nodup h'
  rw [Bool.eq_iff_iff, map_same_map_iff h h', map_same_map_iff hfresh hfresh']
  simp only [Entries.get?_perm hperm h, Entries.get?_perm hperm' h']

end Laws

/--
All three relations of equality are one. It is transitive, and equal values are of one kind and have one truth value.
Among values whose maps have unique keys it is symmetric, and a value equals itself exactly if no NaN is in it. Two
maps with unique keys are equal exactly if each key has equal values in both or a value in neither, in whatever order
their entries are.
-/
theorem same_laws :
    (∀ v w : Value, v.looseEquals w = v.same w ∧ v.strictEquals w = v.same w ∧
      (v.same w = true → v.kind = w.kind ∧ v.kind.name = w.kind.name ∧ v.truthy = w.truthy)) ∧
    (∀ u v w : Value, u.same v = true → v.same w = true → u.same w = true) ∧
    (∀ v w : Value, v.Distinct → w.Distinct → v.same w = w.same v) ∧
    (∀ v : Value, v.Distinct → (v.same v = true ↔ ∀ x, (Value.number x).Inside v → x.isNaN = false)) ∧
    ∀ es fs : Entries Value, es.Distinct → fs.Distinct →
      ((Value.map es).same (.map fs) = true ↔
        ∀ key, Option.Rel (fun v w => v.same w = true) (es.get? key) (fs.get? key)) ∧
      ∀ es' fs', es.Perm es' → fs.Perm fs' → (Value.map es).same (.map fs) = (Value.map es').same (.map fs') := by
  refine ⟨fun v w => ⟨looseEquals_eq_same v w, strictEquals_eq_same v w, fun h => ?_⟩, fun _ _ _ => same_trans, ?_⟩
  · have hkind := kind_eq_of_same h
    exact ⟨hkind, congrArg ValueKind.name hkind, truthy_eq_of_same h⟩
  · refine ⟨fun _ _ => same_comm, fun _ => same_self_iff, fun es fs hes hfs => ⟨?_, ?_⟩⟩
    · exact map_same_map_iff hes hfs
    · exact fun _ _ => map_same_perm hes hfs

/-- Maps in different orders with a zero of either sign inside, and what a NaN under one of the keys changes. -/
theorem same_laws_reordered :
    let greet := Value.function (.host 0 .greet)
    let v := Value.map [("a", .list [.number 0, greet]), ("b", .null)]
    let w := Value.map [("b", .null), ("a", .list [.number (-0), greet])]
    let u := Value.map [("b", .null), ("a", .list [.number Number.nan, greet])]
    (v.Distinct ∧ w.Distinct ∧ u.Distinct) ∧ (v.same w = true ∧ w.same v = true) ∧
    (v.looseEquals w = true ∧ v.strictEquals w = true) ∧ v.truthy = w.truthy ∧
    (∀ key, Option.Rel (fun v w => v.same w = true) (v.property? key) (w.property? key)) ∧
    (v.same v = true ∧ u.same u = false) ∧ ∃ x, (Value.number x).Inside u ∧ x.isNaN = true := by
  intro greet v w u
  obtain ⟨hone, htrans, hcomm, hself, hmap⟩ := same_laws
  have hlist (x : Float) : (Value.list [.number x, greet]).Distinct :=
    distinct_list_iff.2 (by simp [Distinct.of_leaf, greet])
  have hv : v.Distinct :=
    distinct_map_iff.2 ⟨by simp [Entries.Distinct, Entries.names], by simp [hlist, Distinct.of_leaf]⟩
  have hwu (x : Float) : (Value.map [("b", .null), ("a", .list [.number x, greet])]).Distinct :=
    distinct_map_iff.2 ⟨by simp [Entries.Distinct, Entries.names], by simp [hlist, Distinct.of_leaf]⟩
  have hzero : ((0 : Float) == -0) = true := by decide +kernel
  have hsame : v.same w = true := by simp [v, w, greet, same, sameItems, includedIn, Entries.get?, hzero]
  have hnan : (Value.number Number.nan).Inside u :=
    .entry (List.mem_cons_of_mem _ (List.mem_singleton_self _)) (.item (List.mem_cons_self ..) (.self _))
  have hunlike : ¬u.same u = true := by
    intro h
    have hnumber := (hself u (hwu _)).1 h Number.nan hnan
    revert hnumber
    decide +kernel
  refine ⟨⟨hv, hwu _, hwu _⟩, ⟨hsame, (hcomm v w hv (hwu _)).symm.trans hsame⟩, ⟨?_, ?_⟩, ?_, ?_, ⟨?_, ?_⟩, ?_⟩
  · exact (hone v w).1.trans hsame
  · exact (hone v w).2.1.trans hsame
  · exact ((hone v w).2.2 hsame).2.2
  · exact (hmap _ _ hv.keys (hwu _).keys).1.1 hsame
  · exact htrans v w v hsame ((hcomm v w hv (hwu _)).symm.trans hsame)
  · exact Bool.eq_false_iff.2 hunlike
  · exact ⟨Number.nan, hnan, by decide +kernel⟩

end RuleLang.Value
