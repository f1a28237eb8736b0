import Stencil.NameTable

/-! # Memo tables

A table that gives out what it keeps, and keeps what is made for a name that it did not know. What
its operations are documented to do is stated once, as `lookup_replace` and `getOrTryInsert_cases`,
and nothing else is used of them. -/
namespace Stencil.MemoTable

variable {ε α : Type}

def replace (name : String) (value : α) (table : List (String × α)) : List (String × α) :=
  NameTable.insert name value table

/-- What is kept under a name, or else what is made for it. -/
def getOrTryInsert (name : String) (make : Except ε α) (table : List (String × α)) :
    Except ε α × List (String × α) :=
  match table.lookup name with
  | some value => (.ok value, table)
  | none => match make with
    | .ok value => (.ok value, replace name value table)
    | .error e => (.error e, table)

theorem lookup_replace (name : String) (value : α) (table : List (String × α)) (k : String) :
    (replace name value table).lookup k = if k = name then some value else table.lookup k :=
  NameTable.lookup_insert name value table k

/-- What is kept is given out and nothing changes, what can be made is kept from then on, and
nothing is kept of a failure. -/
theorem getOrTryInsert_cases (name : String) (make : Except ε α) (table : List (String × α)) :
    (∃ value, table.lookup name = some value ∧
      getOrTryInsert name make table = (.ok value, table)) ∨
    (∃ value, table.lookup name = none ∧ make = .ok value ∧
      getOrTryInsert name make table = (.ok value, replace name value table)) ∨
    ∃ e, table.lookup name = none ∧ make = .error e ∧
      getOrTryInsert name make table = (.error e, table) := by
  unfold getOrTryInsert
  cases table.lookup name with
  | some value => exact Or.inl ⟨value, rfl, rfl⟩
  | none =>
    cases make with
    | ok value => exact Or.inr (Or.inl ⟨value, rfl, rfl, rfl⟩)
    | error e => exact Or.inr (Or.inr ⟨e, rfl, rfl, rfl⟩)

end Stencil.MemoTable
