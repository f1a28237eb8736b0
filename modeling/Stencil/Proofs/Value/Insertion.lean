import Mathlib.Data.List.Induction
import Stencil.Proofs.Storage.Tables
import Stencil.Value.Record

/-! # What insertion leaves

A record of bindings has their names, each where it came first, and answers with the value that came
last. Bindings that have distinct names already are the record itself.
-/
namespace Stencil.Record

variable {α : Type} {entries bindings : List (String × α)} {name : String}

/-- Binds names one after another. -/
def insertAll (entries : List (String × α)) : List (String × α) → List (String × α)
  | [] => entries
  | (name, value) :: rest => insertAll (insert entries name value) rest

theorem insertAll_nil (bindings : List (String × α)) : insertAll [] bindings = ofList bindings := by
  have hfold (entries : List (String × α)) :
      insertAll entries bindings =
        bindings.foldl (fun table b => insert table b.1 b.2) entries := by
    induction bindings generalizing entries with
    | nil => rfl
    | cons first rest ih => exact ih (insert entries first.1 first.2)
  exact hfold []

theorem ofList_concat (bindings : List (String × α)) (name : String) (value : α) :
    ofList (bindings ++ [(name, value)]) = insert (ofList bindings) name value := by
  unfold ofList
  rw [List.foldl_concat]

/-- The names of a record are those of its bindings, in the order in which they come first. -/
theorem keys_ofList (bindings : List (String × α)) :
    (ofList bindings).map Prod.fst = (bindings.map Prod.fst).eraseDups := by
  induction bindings using List.reverseRecOn with
  | nil => rfl
  | append_singleton front last ih =>
    obtain ⟨name, value⟩ := last
    rw [ofList_concat, List.map_append, List.map_singleton, List.eraseDups_append, ← ih]
    by_cases hmem : name ∈ front.map Prod.fst
    · have hthere : name ∈ (ofList front).map Prod.fst := by rwa [ih, List.mem_eraseDups]
      simp [keys_insert_of_mem hthere, List.removeAll, hmem]
    · have hnew : name ∉ (ofList front).map Prod.fst := by rwa [ih, List.mem_eraseDups]
      simp [insert_of_notMem hnew, List.removeAll, hmem, List.eraseDups_cons]

theorem nodup_keys_ofList (bindings : List (String × α)) :
    ((ofList bindings).map Prod.fst).Nodup := by
  induction bindings using List.reverseRecOn with
  | nil => exact List.nodup_nil
  | append_singleton front last ih =>
    rw [ofList_concat]
    exact nodup_keys_insert (ofList front) last.1 last.2 ih

/-- A record answers with the value that a name was bound to last. -/
theorem lookup_ofList (bindings : List (String × α)) (k : String) :
    (ofList bindings).lookup k = bindings.reverse.lookup k := by
  induction bindings using List.reverseRecOn with
  | nil => rfl
  | append_singleton front last ih =>
    rw [ofList_concat, lookup_insert, ih, List.reverse_concat', NameTable.lookup_cons]

/-- Insertion makes up no entry. -/
theorem mem_of_mem_ofList {entry : String × α} (h : entry ∈ ofList bindings) :
    entry ∈ bindings := by
  have hlast := (NameTable.mem_iff_lookup (nodup_keys_ofList bindings)).mp h
  rw [lookup_ofList, List.lookup_eq_some_iff] at hlast
  obtain ⟨front, back, hsplit, -⟩ := hlast
  rw [← List.mem_reverse, hsplit]
  exact List.mem_append_right front List.mem_cons_self

theorem ofList_of_nodup (h : (bindings.map Prod.fst).Nodup) : ofList bindings = bindings := by
  induction bindings using List.reverseRecOn with
  | nil => rfl
  | append_singleton front last ih =>
    obtain ⟨name, value⟩ := last
    rw [List.map_append, List.map_singleton, List.nodup_append] at h
    have hnew : name ∉ front.map Prod.fst := fun hmem => h.2.2 name hmem name (by simp) rfl
    rw [ofList_concat, ih h.1, insert_of_notMem hnew]

end Stencil.Record
