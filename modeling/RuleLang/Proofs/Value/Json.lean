import Mathlib
import RuleLang.Proofs.Number.Integer
import RuleLang.Proofs.Value.Equality
import RuleLang.Value.Json

/-!
# What JSON holds of a value

A value that is converted to JSON and back has lost its functions, its numbers that are not finite and the sign of
its zeros, at any depth and nothing else. A number goes through JSON in one of two ways: as an integer if it is one of
safe size, which is exact but for the sign of zero, and else as it is. Lists and maps keep their places.
-/

namespace RuleLang.Value

mutual

/-- What JSON can hold of a value: null in place of functions and of numbers that are not finite, and one zero. -/
def storable : Value → Value
  | .null => .null
  | .boolean b => .boolean b
  | .number x => if x.isFinite then .number (if x == 0 then 0 else x) else .null
  | .string s => .string s
  | .list items => .list (storableItems items)
  | .map entries => .map (storableEntries entries)
  | .function _ => .null

def storableItems : List Value → List Value
  | [] => []
  | v :: vs => storable v :: storableItems vs

def storableEntries : List (String × Value) → List (String × Value)
  | [] => []
  | (key, v) :: rest => (key, storable v) :: storableEntries rest

end

section Places

/-! The conversions go through a list or a map item by item, each in its place. -/

theorem storableItems_eq_map (items : List Value) : storableItems items = items.map storable := by
  induction items with
  | nil => rfl
  | cons v items ih => rw [storableItems, ih, List.map_cons]

theorem storableEntries_eq_map (entries : List (String × Value)) :
    storableEntries entries = entries.map (Prod.map id storable) := by
  induction entries with
  | nil => rfl
  | cons entry entries ih =>
    obtain ⟨key, v⟩ := entry
    rw [storableEntries, ih, List.map_cons]
    rfl

theorem itemsToJson_eq_map (items : List Value) : itemsToJson items = items.map toJson := by
  induction items with
  | nil => rfl
  | cons v items ih => rw [itemsToJson, ih, List.map_cons]

theorem entriesToJson_eq_map (entries : List (String × Value)) :
    entriesToJson entries = entries.map (Prod.map id toJson) := by
  induction entries with
  | nil => rfl
  | cons entry entries ih =>
    obtain ⟨key, v⟩ := entry
    rw [entriesToJson, ih, List.map_cons]
    rfl

theorem itemsOfJson_eq_map (items : List Json) : itemsOfJson items = items.map ofJson := by
  induction items with
  | nil => rfl
  | cons j items ih => rw [itemsOfJson, ih, List.map_cons]

theorem entriesOfJson_eq_map (members : List (String × Json)) :
    entriesOfJson members = members.map (Prod.map id ofJson) := by
  induction members with
  | nil => rfl
  | cons member members ih =>
    obtain ⟨key, j⟩ := member
    rw [entriesOfJson, ih, List.map_cons]
    rfl

end Places

section Number

variable {x : Float}

theorem numberToJson_of_not_finite (h : ¬x.isFinite) : numberToJson x = .null := by
  rw [numberToJson]
  cases hd : Number.Dyadic.ofFloat? x with
  | none => rfl
  | some d => exact absurd (Number.isFinite_iff.2 ⟨d, hd⟩) h

theorem numberToJson_of_zero (h : x.isFinite) (hzero : (x == 0) = true) : numberToJson x = .integer 0 := by
  obtain ⟨d, hd⟩ := Number.isFinite_iff.1 h
  rw [numberToJson, hd]
  dsimp only
  rw [Number.Dyadic.toInt?_of_zero ((Number.beq_zero_iff hd).1 hzero)]
  rfl

/-- A finite number other than zero is stored as an integer that is converted to it, or as it is. -/
theorem numberToJson_of_nonzero (h : x.isFinite) (hzero : ¬(x == 0) = true) :
    (∃ n, numberToJson x = .integer n ∧ Float.ofInt n = x) ∨ numberToJson x = .fraction x := by
  obtain ⟨d, hd⟩ := Number.isFinite_iff.1 h
  rw [numberToJson, hd]
  dsimp only
  cases hn : d.toInt? with
  | none => exact .inr rfl
  | some n =>
    dsimp only
    split
    · next hsafe => exact .inl ⟨n, rfl, (Number.ofInt_toInt? hd hn (Nat.lt_succ_of_le hsafe)).trans (if_neg hzero)⟩
    · exact .inr rfl

theorem ofJson_numberToJson (x : Float) : ofJson (numberToJson x) = (Value.number x).storable := by
  rw [storable]
  by_cases h : x.isFinite
  · rw [if_pos h]
    by_cases hzero : (x == 0) = true
    · rw [numberToJson_of_zero h hzero, if_pos hzero]
      rfl
    · rw [if_neg hzero]
      rcases numberToJson_of_nonzero h hzero with ⟨n, hn, hx⟩ | hx
      · rw [hn, ofJson, hx]
      · rw [hx, ofJson]
  · rw [if_neg h, numberToJson_of_not_finite h]
    rfl

end Number

theorem ofJson_toJson (v : Value) : ofJson v.toJson = v.storable := by
  induction v using Value.nested with
  | null => rfl
  | boolean b => rfl
  | string s => rfl
  | function f => rfl
  | number x =>
    rw [toJson]
    exact ofJson_numberToJson x
  | list items ih =>
    rw [toJson, ofJson, storable, itemsToJson_eq_map, itemsOfJson_eq_map, storableItems_eq_map, List.map_map]
    exact congrArg Value.list (List.map_congr_left ih)
  | map entries ih =>
    rw [toJson, ofJson, storable, entriesToJson_eq_map, entriesOfJson_eq_map, storableEntries_eq_map, List.map_map]
    refine congrArg Value.map (List.map_congr_left fun entry hentry => ?_)
    obtain ⟨key, v⟩ := entry
    exact Prod.ext rfl (ih key v hentry)

/-- Nothing that JSON can hold is lost. -/
theorem toJson_storable (v : Value) : v.storable.toJson = v.toJson := by
  induction v using Value.nested with
  | null => rfl
  | boolean b => rfl
  | string s => rfl
  | function f => rfl
  | number x =>
    rw [storable]
    split
    · next h =>
      split
      · next hzero => exact (numberToJson_of_zero (x := 0) rfl rfl).trans (numberToJson_of_zero h hzero).symm
      · rfl
    · next h => exact (numberToJson_of_not_finite h).symm
  | list items ih =>
    rw [storable, toJson, toJson, storableItems_eq_map, itemsToJson_eq_map, itemsToJson_eq_map, List.map_map]
    exact congrArg Json.array (List.map_congr_left ih)
  | map entries ih =>
    rw [storable, toJson, toJson, storableEntries_eq_map, entriesToJson_eq_map, entriesToJson_eq_map, List.map_map]
    refine congrArg Json.object (List.map_congr_left fun entry hentry => ?_)
    obtain ⟨key, v⟩ := entry
    exact Prod.ext rfl (ih key v hentry)

section Equality

variable {v : Value}

theorem number_same_storable_iff {x : Float} :
    (Value.number x).same (Value.number x).storable = true ↔ x.isFinite := by
  rw [storable]
  by_cases h : x.isFinite
  · rw [if_pos h, same]
    refine iff_of_true ?_ h
    by_cases hzero : (x == 0) = true
    · rw [if_pos hzero]
      exact hzero
    · rw [if_neg hzero]
      exact Number.beq_self_of_isFinite h
  · rw [if_neg h]
    exact iff_of_false Bool.false_ne_true h

theorem list_same_storable_iff {items : List Value} :
    (Value.list items).same (Value.list items).storable = true ↔ ∀ v ∈ items, v.same v.storable = true := by
  rw [storable, same, sameItems_iff, storableItems_eq_map, Paired.map_iff]

theorem map_same_storable_iff {entries : List (String × Value)} (h : Entries.Distinct entries) :
    (Value.map entries).same (Value.map entries).storable = true ↔
      ∀ key v, (key, v) ∈ entries → v.same v.storable = true := by
  have hfound {key : String} {v : Value} (hv : (key, v) ∈ entries) :
      Entries.get? key (storableEntries entries) = some v.storable := by
    rw [storableEntries_eq_map, Entries.get?_map, h.get?_eq hv, Option.map_some]
  constructor
  · intro hsame key v hv
    obtain ⟨_, hmap, -, hentries⟩ := map_same_iff.1 hsame
    cases hmap
    obtain ⟨w, hw, hvw⟩ := hentries key v hv
    rw [hfound hv] at hw
    cases hw
    exact hvw
  · intro hentries
    have hlength : entries.length = (storableEntries entries).length := by
      rw [storableEntries_eq_map, List.length_map]
    exact map_same_iff.2 ⟨_, rfl, hlength, fun key v hv => ⟨v.storable, hfound hv, hentries key v hv⟩⟩

/-- A value is equal to what is stored of it exactly if no function is in it and each number in it is finite. -/
theorem same_storable_iff (hv : v.Distinct) : v.same v.storable = true ↔
    (∀ f, ¬(Value.function f).Inside v) ∧ ∀ x, (Value.number x).Inside v → x.isFinite := by
  induction v using Value.nested with
  | null => exact iff_of_true rfl ⟨fun _ => nofun, fun _ => nofun⟩
  | boolean b => exact iff_of_true (boolean_same_iff.2 rfl) ⟨fun _ => nofun, fun _ => nofun⟩
  | string s => exact iff_of_true (string_same_iff.2 rfl) ⟨fun _ => nofun, fun _ => nofun⟩
  | function f => exact iff_of_false Bool.false_ne_true fun h => h.1 f (.self _)
  | number x =>
    rw [number_same_storable_iff]
    constructor
    · refine fun h => ⟨fun _ => nofun, fun y hy => ?_⟩
      cases hy
      exact h
    · exact fun h => h.2 x (.self _)
  | list items ih =>
    rw [list_same_storable_iff]
    constructor
    · intro h
      have hitem (v : Value) (hmem : v ∈ items) := (ih v hmem (hv.item hmem)).1 (h v hmem)
      constructor
      · intro f hf
        obtain ⟨v, hmem, hf⟩ := (inside_list_iff.1 hf).resolve_left nofun
        exact (hitem v hmem).1 f hf
      · intro x hx
        obtain ⟨v, hmem, hx⟩ := (inside_list_iff.1 hx).resolve_left nofun
        exact (hitem v hmem).2 x hx
    · intro h v hmem
      exact (ih v hmem (hv.item hmem)).2 ⟨fun f hf => h.1 f (.item hmem hf), fun x hx => h.2 x (.item hmem hx)⟩
  | map entries ih =>
    rw [map_same_storable_iff hv.keys]
    constructor
    · intro h
      have hentry (key : String) (v : Value) (hmem : (key, v) ∈ entries) :=
        (ih key v hmem (hv.entry hmem)).1 (h key v hmem)
      constructor
      · intro f hf
        obtain ⟨key, v, hmem, hf⟩ := (inside_map_iff.1 hf).resolve_left nofun
        exact (hentry key v hmem).1 f hf
      · intro x hx
        obtain ⟨key, v, hmem, hx⟩ := (inside_map_iff.1 hx).resolve_left nofun
        exact (hentry key v hmem).2 x hx
    · intro h key v hmem
      exact (ih key v hmem (hv.entry hmem)).2 ⟨fun f hf => h.1 f (.entry hmem hf), fun x hx => h.2 x (.entry hmem hx)⟩

end Equality

/--
A value that is converted to JSON and back is the value with null in place of every function and of every number that
is not finite, and with `0` in place of `-0`. Converting it to JSON once more gives the same JSON. If every map in the
value has each of its keys once, then the value is equal to its round trip exactly if no function is in it and each
number in it is finite.
-/
theorem json_round_trip :
    (∀ v : Value, ofJson v.toJson = v.storable) ∧
    (∀ v : Value, (ofJson v.toJson).toJson = v.toJson) ∧
    ∀ v : Value, v.Distinct → (v.looseEquals (ofJson v.toJson) = true ↔
      (∀ f, ¬(Value.function f).Inside v) ∧ ∀ x, (Value.number x).Inside v → x.isFinite) := by
  refine ⟨ofJson_toJson, fun v => ?_, fun v hv => ?_⟩
  · rw [ofJson_toJson, toJson_storable]
  · rw [ofJson_toJson, looseEquals_eq_same]
    exact same_storable_iff hv

/-- A zero without its sign and a fraction, in a map that keeps its order, and what a function beside them changes. -/
theorem json_round_trip_reordered :
    let greet := Value.function (.host 0 .greet)
    let v := Value.map [("b", .list [.number (-0), .number 0.5]), ("a", .string "x")]
    let w := Value.map [("b", .list [.number (-0), greet]), ("a", .number Number.infinity)]
    (v.Distinct ∧ w.Distinct) ∧
    ofJson v.toJson = .map [("b", .list [.number 0, .number 0.5]), ("a", .string "x")] ∧
    ofJson w.toJson = .map [("b", .list [.number 0, .null]), ("a", .null)] ∧
    v.looseEquals (ofJson v.toJson) = true ∧ w.looseEquals (ofJson w.toJson) = false := by
  intro greet v w
  obtain ⟨hround, -, hequal⟩ := json_round_trip
  have hleaf (x : Float) : (Value.number x).Distinct := Distinct.of_leaf nofun nofun
  have hv : v.Distinct := distinct_map_iff.2
    ⟨by simp [Entries.Distinct, Entries.names], by simp [distinct_list_iff, hleaf, Distinct.of_leaf]⟩
  have hw : w.Distinct := distinct_map_iff.2
    ⟨by simp [Entries.Distinct, Entries.names], by simp [distinct_list_iff, hleaf, Distinct.of_leaf, greet]⟩
  have hzero : (-0 : Float).isFinite = true ∧ ((-0 : Float) == 0) = true := by decide +kernel
  have hhalf : (0.5 : Float).isFinite = true ∧ ((0.5 : Float) == 0) = false ∧ ((0.5 : Float) == 0.5) = true := by
    decide +kernel
  have hinfinity : Number.infinity.isFinite = false := by decide +kernel
  refine ⟨⟨hv, hw⟩, ?_, ?_, ?_, ?_⟩
  · rw [hround]
    simp [v, storable, storableEntries, storableItems, hzero, hhalf]
  · rw [hround]
    simp [w, greet, storable, storableEntries, storableItems, hzero, hinfinity]
  · rw [hround, looseEquals_eq_same]
    simp [v, storable, storableEntries, storableItems, same, sameItems, includedIn, Entries.get?, hzero, hhalf]
  · rw [Bool.eq_false_iff, ne_eq, hequal w hw]
    intro h
    exact h.1 _ (.entry (List.mem_cons_self ..) (.item (List.mem_cons_of_mem _ (List.mem_singleton_self _)) (.self _)))

end RuleLang.Value
