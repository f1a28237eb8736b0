import Mathlib.Data.String.Basic
import Stencil.NameTable

/-! # The order of tables

A table that is built binding by binding stands in the order of its names and has each of them
once, so that its entries are what it answers. -/
namespace Stencil.NameTable

variable {α : Type} {table bindings : List (String × α)}

/-- Every name is smaller than the names behind it. -/
def Ordered (table : List (String × α)) : Prop := table.Pairwise fun a b => a.1 < b.1

theorem Ordered.nodup (h : Ordered table) : (table.map Prod.fst).Nodup := by
  rw [List.Nodup, List.pairwise_map]
  exact List.Pairwise.imp (fun hlt => ne_of_lt hlt) h

theorem mem_insert {name : String} {value : α} {entry : String × α}
    (h : entry ∈ insert name value table) : entry = (name, value) ∨ entry ∈ table := by
  induction table with
  | nil => exact Or.inl (List.mem_singleton.mp h)
  | cons first rest ih =>
    obtain ⟨k, v⟩ := first
    unfold insert at h
    split at h
    · exact List.mem_cons.mp h
    · split at h
      · rcases List.mem_cons.mp h with h | h
        · exact Or.inl h
        · exact Or.inr (List.mem_cons_of_mem _ h)
      · rcases List.mem_cons.mp h with rfl | h
        · exact Or.inr List.mem_cons_self
        · exact (ih h).imp_right (List.mem_cons_of_mem _)

theorem Ordered.insert (h : Ordered table) (name : String) (value : α) :
    Ordered (insert name value table) := by
  induction table with
  | nil => exact List.pairwise_singleton _ _
  | cons first rest ih =>
    obtain ⟨k, v⟩ := first
    have hrest := List.pairwise_cons.mp h
    unfold NameTable.insert
    split
    · rename_i hlt
      refine List.pairwise_cons.mpr ⟨fun entry hentry => ?_, h⟩
      rcases List.mem_cons.mp hentry with rfl | hentry
      · exact hlt
      · exact hlt.trans (hrest.1 entry hentry)
    · split
      · rename_i hk
        subst hk
        exact List.pairwise_cons.mpr hrest
      · rename_i hlt hne
        refine List.pairwise_cons.mpr ⟨fun entry hentry => ?_, ih hrest.2⟩
        rcases mem_insert hentry with rfl | hentry
        · exact lt_of_le_of_ne (not_lt.mp hlt) hne
        · exact hrest.1 entry hentry

theorem ofList_eq (bindings : List (String × α)) :
    ofList bindings = bindings.foldl (fun table b => insert b.1 b.2 table) [] := rfl

theorem ordered_ofList (bindings : List (String × α)) : Ordered (ofList bindings) := by
  have hfold (table : List (String × α)) (h : Ordered table) :
      Ordered (bindings.foldl (fun table b => insert b.1 b.2 table) table) := by
    induction bindings generalizing table with
    | nil => exact h
    | cons first rest ih => exact ih _ (h.insert first.1 first.2)
  rw [ofList_eq]
  exact hfold [] List.Pairwise.nil

/-- In a table that has each name once, the entries are the answers. -/
theorem mem_iff_lookup (h : (table.map Prod.fst).Nodup) {k : String} {v : α} :
    (k, v) ∈ table ↔ table.lookup k = some v := by
  induction table with
  | nil => simp
  | cons first rest ih =>
    obtain ⟨key, value⟩ := first
    rw [List.map_cons, List.nodup_cons] at h
    rw [lookup_cons, List.mem_cons, Prod.mk.injEq, ih h.2]
    by_cases hk : k = key
    · subst hk
      have hnot : rest.lookup k ≠ some v := by
        intro hv
        exact h.1 (List.mem_map.mpr ⟨(k, v), (ih h.2).mpr hv, rfl⟩)
      simp [hnot, eq_comm]
    · simp [hk]

/-- Names that come once only keep their values, in whatever order they come. -/
theorem lookup_ofList (h : (bindings.map Prod.fst).Nodup) (k : String) :
    (ofList bindings).lookup k = bindings.lookup k := by
  have hfold (table : List (String × α)) :
      (bindings.foldl (fun table b => insert b.1 b.2 table) table).lookup k =
        (bindings.lookup k).or (table.lookup k) := by
    induction bindings generalizing table with
    | nil => rfl
    | cons first rest ih =>
      obtain ⟨key, value⟩ := first
      rw [List.map_cons, List.nodup_cons] at h
      rw [List.foldl_cons, ih h.2, lookup_insert, lookup_cons]
      by_cases hk : k = key
      · subst hk
        have hnone : rest.lookup k = none := lookup_eq_none_iff.mpr h.1
        simp [hnone]
      · simp [hk]
  rw [ofList_eq, hfold, List.lookup_nil, Option.or_none]

theorem mem_ofList (h : (bindings.map Prod.fst).Nodup) {entry : String × α} :
    entry ∈ ofList bindings ↔ entry ∈ bindings := by
  obtain ⟨k, v⟩ := entry
  rw [mem_iff_lookup (ordered_ofList bindings).nodup, lookup_ofList h, mem_iff_lookup h]

end Stencil.NameTable
