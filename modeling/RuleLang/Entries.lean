/-!
# Entries in order of insertion

Names with values, in the order in which the names were first given. Giving a name again replaces its value
and keeps its place. `Distinct` says that no name occurs twice; every operation here keeps it.
-/

namespace RuleLang

abbrev Entries (α : Type) := List (String × α)

namespace Entries

variable {α β : Type}

/-- The value of a name: the first, if there are several. -/
def get? (name : String) : Entries α → Option α
  | [] => none
  | (key, value) :: rest => if key = name then some value else get? name rest

def insert (name : String) (value : α) : Entries α → Entries α
  | [] => [(name, value)]
  | (key, old) :: rest =>
    if key = name then (key, value) :: rest else (key, old) :: insert name value rest

def insertAll (entries : Entries α) (pairs : List (String × α)) : Entries α :=
  pairs.foldl (fun es (name, value) => es.insert name value) entries

/-- The entries of a list of pairs, where a later pair with the same name replaces the value. -/
def ofList (pairs : List (String × α)) : Entries α :=
  insertAll [] pairs

def names (entries : Entries α) : List String :=
  entries.map Prod.fst

/-- Whether no name occurs twice. -/
def Distinct (entries : Entries α) : Prop :=
  entries.names.Nodup

/-- A name has the value that it was given last. -/
@[simp]
theorem get?_insert (name : String) (value : α) (entries : Entries α) (key : String) :
    (entries.insert name value).get? key = if name = key then some value else entries.get? key := by
  induction entries with
  | nil => simp [insert, get?]
  | cons entry rest ih =>
    obtain ⟨k, old⟩ := entry
    by_cases hk : k = name
    · subst hk
      by_cases hkey : k = key <;> simp [insert, get?, hkey]
    · by_cases hkey : k = key
      · subst hkey
        simp [insert, get?, hk, Ne.symm hk]
      · simp [insert, get?, hk, hkey, ih]

/-- A new name comes last, and a name given before keeps its place. -/
theorem names_insert (name : String) (value : α) (entries : Entries α) :
    (entries.insert name value).names =
      if name ∈ entries.names then entries.names else entries.names ++ [name] := by
  induction entries with
  | nil => simp [insert, names]
  | cons entry rest ih =>
    obtain ⟨k, old⟩ := entry
    by_cases hk : k = name
    · simp [insert, names, hk]
    · have hk' : name ≠ k := fun h => hk h.symm
      simp only [names] at ih
      by_cases hmem : name ∈ rest.map Prod.fst <;> simp_all [insert, names]

end Entries

end RuleLang
