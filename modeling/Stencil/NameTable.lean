/-! # Tables in the order of names

Bindings of names, kept in the order of the names. Binding a name again replaces its value. -/
namespace Stencil.NameTable

variable {α : Type}

def insert (name : String) (value : α) : List (String × α) → List (String × α)
  | [] => [(name, value)]
  | (k, v) :: rest =>
    if name < k then (name, value) :: (k, v) :: rest
    else if k = name then (name, value) :: rest
    else (k, v) :: insert name value rest

/-- The table of bindings in any order, the last one of a name counting. -/
def ofList (bindings : List (String × α)) : List (String × α) :=
  bindings.foldl (fun table (name, value) => insert name value table) []

def erase (name : String) (table : List (String × α)) : List (String × α) :=
  table.filter fun entry => entry.1 != name

theorem lookup_cons (key : String) (value : α) (rest : List (String × α)) (k : String) :
    ((key, value) :: rest).lookup k = if k = key then some value else rest.lookup k := by
  by_cases h : k = key
  · simp [h]
  · have hb : (k == key) = false := by simpa using h
    simp [List.lookup_cons, hb, h]

theorem lookup_eq_none_iff {table : List (String × α)} {k : String} :
    table.lookup k = none ↔ k ∉ table.map Prod.fst := by
  rw [List.lookup_eq_none_iff, List.mem_map]
  constructor
  · rintro h ⟨entry, hentry, rfl⟩
    simpa using h entry hentry
  · intro h entry hentry
    have hne : k ≠ entry.1 := fun hk => h ⟨entry, hentry, hk.symm⟩
    simpa using hne

/-- A table answers with the value bound last. -/
theorem lookup_insert (name : String) (value : α) (table : List (String × α)) (k : String) :
    (insert name value table).lookup k = if k = name then some value else table.lookup k := by
  induction table with
  | nil => simp [insert, lookup_cons]
  | cons entry rest ih =>
    obtain ⟨key, old⟩ := entry
    by_cases hlt : name < key
    · rw [insert, if_pos hlt, lookup_cons]
    · by_cases hk : key = name
      · subst hk
        rw [insert, if_neg hlt, if_pos rfl, lookup_cons, lookup_cons]
        by_cases h : k = key <;> simp [h]
      · rw [insert, if_neg hlt, if_neg hk, lookup_cons, lookup_cons, ih]
        by_cases h : k = key
        · subst h
          simp [hk]
        · simp [h]

theorem lookup_erase (name : String) (table : List (String × α)) (k : String) :
    (erase name table).lookup k = if k = name then none else table.lookup k := by
  induction table with
  | nil => simp [erase]
  | cons entry rest ih =>
    obtain ⟨key, value⟩ := entry
    unfold erase at ih ⊢
    by_cases hk : key = name
    · subst hk
      rw [List.filter_cons, if_neg (by simp), ih, lookup_cons]
      by_cases h : k = key <;> simp [h]
    · rw [List.filter_cons, if_pos (by simpa using hk), lookup_cons, lookup_cons, ih]
      by_cases h : k = key
      · subst h
        simp [hk]
      · simp [h]

end Stencil.NameTable
