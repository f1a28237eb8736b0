import Stencil.NameTable
import Stencil.Value.Basic

/-! # Records in insertion order

A record is built entry by entry. A name that comes again keeps its first place and takes the
last value, so the names of a record that was built from nothing are distinct. What binding a name
is documented to do is stated once, as `insert_cases`, and nothing else is used of it.
-/
namespace Stencil.Record

def insert {α : Type} (entries : List (String × α)) (name : String) (value : α) :
    List (String × α) :=
  match entries with
  | [] => [(name, value)]
  | (k, v) :: rest => if k = name then (k, value) :: rest else (k, v) :: insert rest name value

/-- The record of a list of bindings, taken one after another. -/
def ofList {α : Type} (bindings : List (String × α)) : List (String × α) :=
  bindings.foldl (fun entries (name, value) => insert entries name value) []

variable {α : Type}

/-- A name that is there keeps its place and takes the value, and a new one comes behind all
others. -/
theorem insert_cases (entries : List (String × α)) (name : String) (value : α) :
    (∃ front old back, entries = front ++ (name, old) :: back ∧ name ∉ front.map Prod.fst ∧
      insert entries name value = front ++ (name, value) :: back) ∨
    (name ∉ entries.map Prod.fst ∧ insert entries name value = entries ++ [(name, value)]) := by
  induction entries with
  | nil => exact Or.inr ⟨List.not_mem_nil, rfl⟩
  | cons entry rest ih =>
    obtain ⟨k, v⟩ := entry
    rw [insert]
    by_cases hk : k = name
    · subst hk
      exact Or.inl ⟨[], v, rest, rfl, List.not_mem_nil, if_pos rfl⟩
    · rw [if_neg hk]
      rcases ih with ⟨front, old, back, rfl, hfront, hinsert⟩ | ⟨hnew, hinsert⟩
      · refine Or.inl ⟨(k, v) :: front, old, back, rfl, ?_, by rw [hinsert]; rfl⟩
        exact List.not_mem_cons_of_ne_of_not_mem (Ne.symm hk) hfront
      · refine Or.inr ⟨?_, by rw [hinsert]; rfl⟩
        exact List.not_mem_cons_of_ne_of_not_mem (Ne.symm hk) hnew

theorem keys_insert_of_mem {entries : List (String × α)} {name : String}
    (h : name ∈ entries.map Prod.fst) (value : α) :
    (insert entries name value).map Prod.fst = entries.map Prod.fst := by
  rcases insert_cases entries name value with ⟨front, old, back, rfl, -, hinsert⟩ | ⟨hnew, -⟩
  · rw [hinsert, List.map_append, List.map_append, List.map_cons, List.map_cons]
  · exact absurd h hnew

theorem insert_of_notMem {entries : List (String × α)} {name : String}
    (h : name ∉ entries.map Prod.fst) (value : α) :
    insert entries name value = entries ++ [(name, value)] := by
  rcases insert_cases entries name value with ⟨front, old, back, rfl, -, -⟩ | ⟨-, hinsert⟩
  · simp at h
  · exact hinsert

theorem nodup_keys_insert (entries : List (String × α)) (name : String) (value : α)
    (h : (entries.map Prod.fst).Nodup) : ((insert entries name value).map Prod.fst).Nodup := by
  by_cases hname : name ∈ entries.map Prod.fst
  · rwa [keys_insert_of_mem hname]
  · rw [insert_of_notMem hname, List.map_append, List.nodup_append]
    refine ⟨h, List.pairwise_singleton _ _, fun k hk other hother heq => ?_⟩
    rw [heq, List.mem_singleton.mp hother] at hk
    exact hname hk

theorem lookup_insert (entries : List (String × α)) (name : String) (value : α) (k : String) :
    (insert entries name value).lookup k = if k = name then some value else entries.lookup k := by
  rcases insert_cases entries name value with ⟨front, old, back, rfl, hfront, hinsert⟩ |
    ⟨hnew, hinsert⟩
  · rw [hinsert, List.lookup_append, List.lookup_append, NameTable.lookup_cons, NameTable.lookup_cons]
    by_cases hk : k = name
    · rw [if_pos hk, if_pos hk, hk, NameTable.lookup_eq_none_iff.mpr hfront, Option.none_or]
    · rw [if_neg hk, if_neg hk, if_neg hk]
  · rw [hinsert, List.lookup_append, NameTable.lookup_cons, List.lookup_nil]
    by_cases hk : k = name
    · rw [if_pos hk, if_pos hk, hk, NameTable.lookup_eq_none_iff.mpr hnew, Option.none_or]
    · rw [if_neg hk, if_neg hk, Option.or_none]

end Stencil.Record
