import Mathlib.Data.List.Induction
import Mathlib.Data.List.Nodup
import Mathlib.Data.List.Perm.Subperm
import RuleLang.Entries

/-!
# Entries with distinct names

Where no name occurs twice, entries are a finite map: an entry is found under its name, whatever the order. Two of
them with equally many entries have the same names as soon as those of one are among those of the other. Names that are
given one after the other have each its first place and its last value, as if it had been given once.
-/

namespace RuleLang.Entries

variable {α β : Type} {es : Entries α} {fs : Entries β} {name : String} {value : α}

theorem mem_of_get? (h : es.get? name = some value) : (name, value) ∈ es := by
  induction es with
  | nil => cases h
  | cons entry rest ih =>
    obtain ⟨key, old⟩ := entry
    rw [get?] at h
    by_cases hkey : key = name
    · rw [if_pos hkey] at h
      cases h
      subst hkey
      exact List.mem_cons_self ..
    · rw [if_neg hkey] at h
      exact List.mem_cons_of_mem _ (ih h)

theorem mem_insert {entry : String × α} (h : entry ∈ es.insert name value) : entry.2 = value ∨ entry ∈ es := by
  induction es with
  | nil => exact .inl (congrArg Prod.snd (List.mem_singleton.1 h))
  | cons first rest ih =>
    obtain ⟨key, old⟩ := first
    rw [insert] at h
    split at h
    · rcases List.mem_cons.1 h with rfl | hrest
      · exact .inl rfl
      · exact .inr (List.mem_cons_of_mem _ hrest)
    · rcases List.mem_cons.1 h with rfl | hrest
      · exact .inr (List.mem_cons_self ..)
      · exact (ih hrest).imp id (List.mem_cons_of_mem _)

theorem mem_names (h : (name, value) ∈ es) : name ∈ es.names :=
  List.mem_map.2 ⟨(name, value), h, rfl⟩

theorem exists_get?_of_mem_names (h : name ∈ es.names) : ∃ value, es.get? name = some value := by
  induction es with
  | nil => cases h
  | cons entry rest ih =>
    obtain ⟨key, old⟩ := entry
    rw [get?]
    by_cases hkey : key = name
    · exact ⟨old, if_pos hkey⟩
    · rw [if_neg hkey]
      exact ih ((List.mem_cons.1 h).resolve_left fun heq => hkey heq.symm)

theorem mem_names_of_get? (h : es.get? name = some value) : name ∈ es.names :=
  mem_names (mem_of_get? h)

theorem get?_map (f : α → β) (es : Entries α) (name : String) :
    get? name (es.map (Prod.map id f)) = (es.get? name).map f := by
  induction es with
  | nil => rfl
  | cons entry rest ih =>
    obtain ⟨key, old⟩ := entry
    show (if key = name then some (f old) else get? name (rest.map (Prod.map id f))) = _
    rw [get?, ih]
    split
    · rfl
    · rfl

theorem get?_append (es es' : Entries α) (name : String) :
    get? name (es ++ es') = (get? name es).or (get? name es') := by
  induction es with
  | nil => rfl
  | cons entry rest ih =>
    obtain ⟨key, old⟩ := entry
    rw [List.cons_append, get?, get?, ih]
    split
    · rfl
    · rfl

theorem Distinct.rest {entry : String × α} (h : Entries.Distinct (entry :: es)) : es.Distinct :=
  (List.nodup_cons.1 h).2

/-- An entry is found under its name. -/
theorem Distinct.get?_eq (h : es.Distinct) (hmem : (name, value) ∈ es) : es.get? name = some value := by
  induction es with
  | nil => cases hmem
  | cons entry rest ih =>
    obtain ⟨key, old⟩ := entry
    rw [get?]
    rcases List.mem_cons.1 hmem with heq | hmem
    · cases heq
      exact if_pos rfl
    · have hne : key ≠ name := by
        intro heq
        subst heq
        exact (List.nodup_cons.1 h).1 (mem_names hmem)
      rw [if_neg hne]
      exact ih h.rest hmem

/-- The value of a name does not depend on the order of entries, if no name occurs twice. -/
theorem get?_perm {es' : Entries α} (h : es.Perm es') (hdistinct : es.Distinct) (name : String) :
    es.get? name = es'.get? name := by
  have hdistinct' : es'.Distinct := (h.map Prod.fst).nodup hdistinct
  cases hvalue : es.get? name with
  | some value => rw [hdistinct'.get?_eq (h.mem_iff.1 (mem_of_get? hvalue))]
  | none =>
    cases hvalue' : es'.get? name with
    | none => rfl
    | some value' =>
      rw [hdistinct.get?_eq (h.mem_iff.2 (mem_of_get? hvalue'))] at hvalue
      cases hvalue

/-- Entries with the same value for each name differ in their order only. -/
theorem perm_of_get?_eq {es' : Entries α} (h : es.Distinct) (h' : es'.Distinct)
    (hget : ∀ name, es.get? name = es'.get? name) : es.Perm es' := by
  have hmem (entry : String × α) : entry ∈ es ↔ entry ∈ es' := by
    obtain ⟨name, value⟩ := entry
    constructor
    · intro hentry
      exact mem_of_get? ((hget name).symm.trans (h.get?_eq hentry))
    · intro hentry
      exact mem_of_get? ((hget name).trans (h'.get?_eq hentry))
  exact (List.perm_ext_iff_of_nodup (List.Nodup.of_map _ h) (List.Nodup.of_map _ h')).2 hmem

/-- Distinct names that are among no more other names are all of them. -/
theorem names_perm (hes : es.Distinct) (hsubset : es.names ⊆ fs.names) (hlength : fs.length ≤ es.length) :
    es.names.Perm fs.names := by
  have hnames : fs.names.length ≤ es.names.length := by
    unfold names
    rw [List.length_map, List.length_map]
    exact hlength
  exact (List.subperm_of_subset hes hsubset).perm_of_length_le hnames

section InsertAll

/-! Names that are given one after the other. -/

theorem eraseDups_concat (names : List String) (name : String) :
    (names ++ [name]).eraseDups = if name ∈ names then names.eraseDups else names.eraseDups ++ [name] := by
  rw [List.eraseDups_append]
  split
  · next hname => simp [List.removeAll, hname]
  · next hname => simp [List.removeAll, hname, List.eraseDups_cons]

theorem eraseDups_eq_self {names : List String} (h : names.Nodup) : names.eraseDups = names := by
  induction names using List.reverseRecOn with
  | nil => rfl
  | append_singleton names name ih =>
    rw [← List.concat_eq_append, List.nodup_concat] at h
    obtain ⟨hname, hnames⟩ := h
    rw [eraseDups_concat, if_neg hname, ih hnames]

theorem distinct_nil : Distinct ([] : Entries α) :=
  List.nodup_nil

theorem Distinct.insert (h : es.Distinct) (name : String) (value : α) : (es.insert name value).Distinct := by
  unfold Distinct
  rw [names_insert]
  split
  · exact h
  · next hname =>
    rw [← List.concat_eq_append]
    exact List.Nodup.concat hname h

theorem Distinct.insertAll (h : es.Distinct) (pairs : List (String × α)) : (es.insertAll pairs).Distinct := by
  induction pairs generalizing es with
  | nil => exact h
  | cons pair pairs ih => exact ih (h.insert pair.1 pair.2)

theorem insertAll_concat (es : Entries α) (pairs : List (String × α)) (name : String) (value : α) :
    es.insertAll (pairs ++ [(name, value)]) = (es.insertAll pairs).insert name value := by
  unfold insertAll
  rw [List.foldl_append]
  rfl

/-- A name has the value that it is given last in a list, or the one it had before. -/
theorem get?_insertAll (es : Entries α) (pairs : List (String × α)) (name : String) :
    (es.insertAll pairs).get? name = (get? name pairs.reverse).or (es.get? name) := by
  induction pairs using List.reverseRecOn with
  | nil => rfl
  | append_singleton pairs pair ih =>
    obtain ⟨key, value⟩ := pair
    rw [insertAll_concat, get?_insert, List.reverse_concat, get?, ih]
    split
    · rfl
    · rfl

/-- The names are those from before and then those of the list, in the order in which they are first given. -/
theorem names_insertAll (h : es.Distinct) (pairs : List (String × α)) :
    (es.insertAll pairs).names = (es.names ++ pairs.map Prod.fst).eraseDups := by
  induction pairs using List.reverseRecOn with
  | nil =>
    rw [List.map_nil, List.append_nil, eraseDups_eq_self h]
    rfl
  | append_singleton pairs pair ih =>
    obtain ⟨key, value⟩ := pair
    rw [insertAll_concat, names_insert, ih, List.map_append, ← List.append_assoc, List.map_singleton, eraseDups_concat]
    simp only [List.mem_eraseDups]

theorem distinct_ofList (pairs : List (String × α)) : (ofList pairs).Distinct :=
  distinct_nil.insertAll pairs

/-- A name has the value that it is given last in a list. -/
theorem get?_ofList (pairs : List (String × α)) (name : String) :
    (ofList pairs).get? name = get? name pairs.reverse := by
  rw [ofList, get?_insertAll, get?, Option.or_none]

/-- The names are those of the list, in the order in which they are first given. -/
theorem names_ofList (pairs : List (String × α)) : (ofList pairs).names = (pairs.map Prod.fst).eraseDups := by
  rw [ofList, names_insertAll distinct_nil]
  rfl

theorem insert_of_not_mem (h : name ∉ es.names) : es.insert name value = es ++ [(name, value)] := by
  induction es with
  | nil => rfl
  | cons entry rest ih =>
    obtain ⟨key, old⟩ := entry
    obtain ⟨hkey, hrest⟩ := List.ne_and_not_mem_of_not_mem_cons h
    rw [insert, if_neg hkey.symm, ih hrest, List.cons_append]

/-- Distinct names are in their places. -/
theorem Distinct.ofList_eq (h : es.Distinct) : ofList es = es := by
  induction es using List.reverseRecOn with
  | nil => rfl
  | append_singleton es entry ih =>
    obtain ⟨name, value⟩ := entry
    unfold Distinct names at h
    rw [List.map_append, List.map_singleton, ← List.concat_eq_append, List.nodup_concat] at h
    obtain ⟨hname, hes⟩ := h
    rw [ofList, insertAll_concat, ← ofList, ih hes, insert_of_not_mem hname]

end InsertAll

section Again

/-! A name that is given again. -/

theorem insert_insert_self (es : Entries α) (name : String) (old value : α) :
    (es.insert name old).insert name value = es.insert name value := by
  induction es with
  | nil => rw [insert, insert, insert, if_pos rfl]
  | cons entry rest ih =>
    obtain ⟨key, first⟩ := entry
    rw [insert, insert]
    split
    · next hkey => rw [insert, if_pos hkey]
    · next hkey => rw [insert, if_neg hkey, ih]

/-- A name that has its place takes a value before another name is given as well as after. -/
theorem insert_insert_comm {other : String} {x : α} (h : name ∈ es.names) (hother : other ≠ name) :
    (es.insert other x).insert name value = (es.insert name value).insert other x := by
  induction es with
  | nil => cases h
  | cons entry rest ih =>
    obtain ⟨key, first⟩ := entry
    by_cases hkey : key = name
    · subst hkey
      simp [insert, hother.symm]
    · have hrest : name ∈ names rest := (List.mem_cons.1 h).resolve_left fun heq => hkey heq.symm
      by_cases hkey' : key = other
      · simp [insert, hkey', hother]
      · simp [insert, hkey, hkey', ih hrest]

/-- A name that is given again could have had its last value from the start, whatever was given in between. -/
theorem insert_insertAll (h : name ∈ es.names) (pairs : List (String × α)) :
    (es.insertAll pairs).insert name value =
      (es.insert name value).insertAll (pairs.filter fun pair => pair.1 ≠ name) := by
  induction pairs generalizing es with
  | nil => rfl
  | cons pair pairs ih =>
    obtain ⟨key, x⟩ := pair
    have hname : name ∈ (es.insert key x).names := by
      rw [names_insert]
      split
      · exact h
      · exact List.mem_append_left _ h
    have hrest := ih hname
    by_cases hkey : key = name
    · subst hkey
      rw [insert_insert_self] at hrest
      rw [List.filter_cons_of_neg (by simp)]
      exact hrest
    · rw [insert_insert_comm h hkey] at hrest
      rw [List.filter_cons_of_pos (by simpa using hkey)]
      exact hrest

end Again

end RuleLang.Entries
