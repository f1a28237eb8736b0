import Mathlib.Data.List.Lex
import Stencil.Proofs.Storage.Joining
import Stencil.Proofs.Storage.Tables
import Stencil.Storage.Disk

/-! # The template files of a tree

Names lead from a directory to what lies below it. The walk finds each template file once that the
directories on the way show, at the path along its names, and in the order of the names: what lies
in a directory stands where the name of the directory does. -/
namespace Stencil

open Stencil.Path (IsName ofNames join below)

namespace Entry

/-- What names lead to. -/
def find? : List String → Entry → Option Entry
  | [], e => some e
  | name :: rest, folder _ children => (children.lookup name).bind (find? rest)
  | _ :: _, _ => none

/-- Whether the directories on the way along names let paths through. -/
def entered : List String → Entry → Bool
  | [], _ => true
  | name :: rest, folder access children =>
    access.entered && (children.lookup name).any (entered rest)
  | _ :: _, _ => false

def IsFile : Entry → Prop
  | folder _ _ => False
  | _ => True

/-- Every directory gives proper names, and each of them once. -/
inductive WellNamed : Entry → Prop where
  | file (content : List UInt8) : WellNamed (file content)
  | unreadable (reason : String) : WellNamed (unreadable reason)
  | folder {access : Access} {children : List (String × Entry)}
      (nodup : (children.map Prod.fst).Nodup) (names : ∀ c ∈ children, IsName c.1)
      (below : ∀ c ∈ children, WellNamed c.2) : WellNamed (folder access children)

theorem wellNamed_folder_iff {access : Access} {children : List (String × Entry)} :
    (folder access children).WellNamed ↔ (children.map Prod.fst).Nodup ∧
      (∀ c ∈ children, IsName c.1) ∧ ∀ c ∈ children, c.2.WellNamed := by
  refine ⟨fun h => ?_, fun ⟨nodup, names, below⟩ => .folder nodup names below⟩
  cases h with
  | folder nodup names below => exact ⟨nodup, names, below⟩

mutual

def decideWellNamed : (e : Entry) → Decidable e.WellNamed
  | file content => .isTrue (.file content)
  | unreadable reason => .isTrue (.unreadable reason)
  | folder _ children =>
    have := decideBelow children
    decidable_of_iff _ wellNamed_folder_iff.symm

def decideBelow : (children : List (String × Entry)) → Decidable (∀ c ∈ children, c.2.WellNamed)
  | [] => .isTrue (List.forall_mem_nil _)
  | (_, e) :: rest =>
    have := decideWellNamed e
    have := decideBelow rest
    decidable_of_iff _ List.forall_mem_cons.symm

end

instance : DecidablePred WellNamed := decideWellNamed

/-- Whether names lead from a directory to a template file. -/
structure HasTemplate (top : Entry) (names : List String) (e : Entry) : Prop where
  found : top.find? names = some e
  file : e.IsFile
  extension : ∃ name, names.getLast? = some name ∧ Path.IsTemplateName name

variable {top e : Entry} {names others : List String}

theorem find?_cons {access : Access} {children : List (String × Entry)}
    (nodup : (children.map Prod.fst).Nodup) {name : String} :
    (folder access children).find? (name :: names) = some e ↔
      ∃ child, (name, child) ∈ children ∧ child.find? names = some e := by
  rw [find?, Option.bind_eq_some_iff]
  simp only [NameTable.mem_iff_lookup nodup]

/-- Nothing lies below a file. -/
theorem eq_of_find? (hfind : top.find? names = some e) (hfile : top.IsFile) :
    names = [] ∧ e = top := by
  cases names with
  | nil => exact ⟨rfl, (Option.some.inj hfind).symm⟩
  | cons name rest =>
    cases top with
    | file | unreadable => simp [find?] at hfind
    | folder access children => exact hfile.elim

theorem WellNamed.names_of_find? (h : top.WellNamed) (hfind : top.find? names = some e) :
    ∀ name ∈ names, IsName name := by
  induction h generalizing names with
  | file | unreadable =>
    obtain ⟨rfl, -⟩ := eq_of_find? hfind trivial
    simp
  | folder nodup proper below ih =>
    cases names with
    | nil => simp
    | cons name rest =>
      obtain ⟨child, hchild, hrest⟩ := (find?_cons nodup).mp hfind
      exact List.forall_mem_cons.mpr ⟨proper _ hchild, ih _ hchild hrest⟩

theorem HasTemplate.ne_nil (h : top.HasTemplate names e) : names ≠ [] := by
  rintro rfl
  obtain ⟨name, hname, -⟩ := h.extension
  cases hname

theorem foldl_childPath {path : String} (hpath : path ≠ "") (names : List String) :
    names.foldl childPath path = ofNames (path :: names) := by
  induction names generalizing path with
  | nil => simp [ofNames]
  | cons name rest ih =>
    have hchild : childPath path name = path ++ "/" ++ name := if_neg hpath
    have hne : path ++ "/" ++ name ≠ "" := by simp
    rw [List.foldl_cons, hchild, ih hne]
    cases rest with
    | nil => simp [ofNames]
    | cons next more => simp [ofNames, String.append_assoc]

theorem foldl_childPath_empty (h : ∀ name ∈ names, IsName name) :
    names.foldl childPath "" = ofNames names := by
  cases names with
  | nil => rfl
  | cons name rest => exact foldl_childPath (h name List.mem_cons_self).nonempty rest

end Entry

namespace Path

theorem isTemplate_join {path name : String} (hpath : path ≠ "") (h : IsName name) :
    isTemplate (join path name) = true ↔ IsTemplateName name := by
  have hne : path.toList ≠ [] := fun hnil => hpath (String.toList_eq_nil_iff.mp hnil)
  have hsteps : components (join path name).toList =
      components path.toList ++ [.normal name.toList] := by
    rw [toList_join, components_push hne h.plain, List.filterMap_cons_some h.component?,
      List.filterMap_nil]
  rw [isTemplate, extension?, hsteps, List.getLast?_concat]
  cases he : nameExtension? name.toList <;> simp [IsTemplateName, he]

/-- The last name decides whether a path is that of a template. -/
theorem isTemplate_below {path : String} {names : List String} (hpath : path ≠ "")
    (hne : names ≠ []) (h : ∀ name ∈ names, IsName name) :
    isTemplate (below path names) = true ↔
      ∃ name, names.getLast? = some name ∧ IsTemplateName name := by
  induction names generalizing path with
  | nil => exact absurd rfl hne
  | cons name rest ih =>
    obtain ⟨hname, hrest⟩ := List.forall_mem_cons.mp h
    cases rest with
    | nil =>
      rw [below, List.foldl_cons, List.foldl_nil, isTemplate_join hpath hname]
      simp
    | cons next more =>
      rw [below, List.foldl_cons, ← below, ih (join_ne_empty hpath hname) (by simp) hrest,
        List.getLast?_cons_cons]

end Path

namespace Disk

variable {disk : Disk} {top : Entry} {names others : List String} {name path : String}

/-- Whether each directory on the way along names, the one of the path included, can be listed. -/
def Listed (disk : Disk) : String → List String → Prop
  | _, [] => True
  | path, name :: rest => disk.lists path = true ∧ disk.Listed (join path name) rest

theorem templatesBelow_eq_map (disk : Disk) (name path : String)
    (children : List (String × Entry)) :
    disk.templatesBelow name path children = children.map fun c =>
      (c.1, disk.templatesAt (Entry.childPath name c.1) (join path c.1) c.2) := by
  induction children with
  | nil => rfl
  | cons c rest ih => rw [templatesBelow, ih, List.map_cons]

theorem keys_templatesBelow (disk : Disk) (name path : String)
    (children : List (String × Entry)) :
    (disk.templatesBelow name path children).map Prod.fst = children.map Prod.fst := by
  rw [templatesBelow_eq_map, List.map_map]
  rfl

/-- What the walk finds along names. -/
def foundAt (name path : String) (names : List String) : String × String :=
  (names.foldl Entry.childPath name, below path names)

/-- The walk finds the template files that listings show, and nothing else. -/
theorem mem_templatesAt (h : top.WellNamed) {found : String × String} :
    found ∈ disk.templatesAt name path top ↔ ∃ names e, top.find? names = some e ∧ e.IsFile ∧
      disk.Listed path names ∧ found = foundAt name path names ∧
      Path.isTemplate found.2 = true := by
  induction h generalizing name path with
  | file content | unreadable reason =>
    rw [templatesAt]
    constructor
    · intro hmem
      split at hmem
      · obtain rfl := List.mem_singleton.mp hmem
        exact ⟨[], _, rfl, trivial, trivial, rfl, ‹_›⟩
      · cases hmem
    · rintro ⟨names, e, hfind, -, -, rfl, htemplate⟩
      obtain ⟨rfl, -⟩ := Entry.eq_of_find? hfind trivial
      have hpath : Path.isTemplate path = true := htemplate
      rw [if_pos hpath]
      exact List.mem_singleton_self _
  | @folder access children nodup proper below ih =>
    have hkeys : ((disk.templatesBelow name path children).map Prod.fst).Nodup :=
      (keys_templatesBelow disk name path children).symm ▸ nodup
    by_cases hlists : disk.lists path = true
    · rw [templatesAt, if_pos hlists]
      simp only [List.mem_flatMap, NameTable.mem_ofList hkeys]
      rw [templatesBelow_eq_map]
      constructor
      · rintro ⟨row, hrow, hfound⟩
        obtain ⟨c, hc, rfl⟩ := List.mem_map.mp hrow
        obtain ⟨names, e, hfind, hfile, hlisted, hrest⟩ := (ih c hc).mp hfound
        exact ⟨c.1 :: names, e, (Entry.find?_cons nodup).mpr ⟨c.2, hc, hfind⟩, hfile,
          ⟨hlists, hlisted⟩, hrest⟩
      · rintro ⟨names, e, hfind, hfile, hlisted, hrest⟩
        cases names with
        | nil =>
          rw [← Option.some.inj hfind] at hfile
          exact hfile.elim
        | cons child rest =>
          obtain ⟨c, hchild, hbelow⟩ := (Entry.find?_cons nodup).mp hfind
          exact ⟨_, List.mem_map_of_mem hchild,
            (ih _ hchild).mpr ⟨rest, e, hbelow, hfile, hlisted.2, hrest⟩⟩
    · rw [templatesAt, if_neg hlists]
      constructor
      · intro hmem
        cases hmem
      · rintro ⟨names, e, hfind, hfile, hlisted, -⟩
        cases names with
        | nil =>
          rw [← Option.some.inj hfind] at hfile
          exact hfile.elim
        | cons child rest => exact absurd hlisted.1 hlists

/-- Whether one find stands before another one in the order of the names that lead to them. -/
def Before (top : Entry) (name path : String) (a b : String × String) : Prop :=
  ∃ names others, (top.find? names).isSome ∧ (top.find? others).isSome ∧
    a = foundAt name path names ∧ b = foundAt name path others ∧ names < others

theorem pairwise_templatesAt (disk : Disk) (h : top.WellNamed) (name path : String) :
    (disk.templatesAt name path top).Pairwise (Before top name path) := by
  induction h generalizing name path with
  | file | unreadable =>
    rw [templatesAt]
    split
    · exact List.pairwise_singleton _ _
    · exact List.Pairwise.nil
  | @folder access children nodup proper below ih =>
    have hkeys : ((disk.templatesBelow name path children).map Prod.fst).Nodup :=
      (keys_templatesBelow disk name path children).symm ▸ nodup
    have hrow (row : String × List (String × String))
        (hmem : row ∈ NameTable.ofList (disk.templatesBelow name path children)) :
        ∃ child, (row.1, child) ∈ children ∧
          row.2 = disk.templatesAt (Entry.childPath name row.1) (join path row.1) child := by
      rw [NameTable.mem_ofList hkeys, templatesBelow_eq_map] at hmem
      obtain ⟨c, hc, rfl⟩ := List.mem_map.mp hmem
      exact ⟨c.2, hc, rfl⟩
    have hfind {first : String} {rest : List String} {child : Entry}
        (hchild : (first, child) ∈ children) (hrest : (child.find? rest).isSome) :
        ((Entry.folder access children).find? (first :: rest)).isSome := by
      obtain ⟨e, he⟩ := Option.isSome_iff_exists.mp hrest
      exact Option.isSome_iff_exists.mpr ⟨e, (Entry.find?_cons nodup).mpr ⟨child, hchild, he⟩⟩
    rw [templatesAt]
    split
    · rw [List.pairwise_flatMap]
      constructor
      · -- two finds below the same entry differ in the names behind it
        intro row hmem
        obtain ⟨child, hchild, heq⟩ := hrow row hmem
        rw [heq]
        refine (ih _ hchild _ _).imp ?_
        rintro a b ⟨names, others, ha, hb, rfl, rfl, hlt⟩
        exact ⟨row.1 :: names, row.1 :: others, hfind hchild ha, hfind hchild hb, rfl, rfl,
          List.cons_lt_cons_iff.mpr (Or.inr ⟨rfl, hlt⟩)⟩
      · -- two finds below different entries differ in the first name
        have hordered := NameTable.ordered_ofList (disk.templatesBelow name path children)
        refine hordered.imp_of_mem ?_
        intro row next hmem hnext hlt a ha b hb
        obtain ⟨child, hchild, heq⟩ := hrow row hmem
        obtain ⟨other, hother, heq'⟩ := hrow next hnext
        rw [heq, mem_templatesAt (below _ hchild)] at ha
        rw [heq', mem_templatesAt (below _ hother)] at hb
        obtain ⟨names, e, hfa, -, -, rfl, -⟩ := ha
        obtain ⟨others, f, hfb, -, -, rfl, -⟩ := hb
        exact ⟨row.1 :: names, next.1 :: others, hfind hchild (by simp [hfa]),
          hfind hother (by simp [hfb]), rfl, rfl, List.cons_lt_cons_iff.mpr (Or.inl hlt)⟩
    · exact List.Pairwise.nil

end Disk

end Stencil
