import Mathlib.Data.List.TakeWhile
import Stencil.Proofs.Storage.Refreshing

/-! # Reading the tree beforehand

A loader that reads the tree beforehand keeps each template file that the walk from its root comes
by under the path along the names that lead there, or fails for the first broken one in the order
of names. What it keeps is what a loader that reads on demand finds under the same path. Only what
lies below a directory that cannot be listed is not missed when it is left out. -/
namespace Stencil

open Stencil.Path (IsName ofNames join below)

/-- Whether all template files that the walk from a root comes by can be read and parsed. -/
def Disk.AllSound (disk : Disk) (root : String) : Prop :=
  ∀ names e, disk.Shows root names e → (disk.template root names).isOk = true

namespace Loader

variable {disk : Disk} {root : String}

theorem allSound_iff (hwell : disk.WellNamed) :
    disk.AllSound root ↔ ∀ file ∈ disk.templates root, isSound disk file = true := by
  constructor
  · rintro hsound file hmem
    obtain ⟨names, e, h, rfl⟩ := (Disk.mem_templates hwell).mp hmem
    exact hsound names e h
  · intro hsound names e h
    exact hsound _ (h.mem_templates hwell)

/-- A loader that reads on demand finds a template file under its path. -/
theorem fetch_of_hasTemplate {names : List String} {e : Entry} {t : Template} {l : Loader}
    (hwell : disk.WellNamed) (h : disk.HasTemplate l.root names e)
    (ht : disk.template l.root names = .ok t)
    (hsafe : ∀ s ∈ Path.segments (ofNames names).toList, Path.isRefused s = false) :
    l.fetch disk (ofNames names) = .ok t := by
  have hplain : ∀ name ∈ names, '/' ∉ name.toList := fun n hn => (h.isName hwell n hn).plain
  obtain ⟨hread, hnamed⟩ := Disk.template_ok ht
  exact fetch_of_read (Path.safeJoin?_ofNames h.ne_nil hplain hsafe l.root) hread hnamed

/-- What a loader is like that has read a tree of sound files. -/
structure HoldsTree (l : Loader) (disk : Disk) (root : String) : Prop where
  preload : l.preload = true
  nodup : (l.cache.map Prod.fst).Nodup
  kept : ∀ p, (l.cache.lookup p).isSome ↔ ∃ names e, disk.Shows root names e ∧ p = ofNames names
  template : ∀ names e, disk.Shows root names e →
    ∃ i, l.cache.lookup (ofNames names) = some i ∧ disk.template root names = .ok i.template

theorem exists_holdsTree (hwell : disk.WellNamed) (hsound : disk.AllSound root) :
    ∃ l, Loader.new disk root true = .ok l ∧ l.HoldsTree disk root := by
  have hfiles := (allSound_iff hwell).mp hsound
  let start : Loader := ⟨root, true, [], 0⟩
  have hok := keepAll_ok hfiles start
  have hrun : start.refresh disk = (.ok (), (start.keepAll disk (disk.templates root)).2) :=
    Prod.ext hok rfl
  refine ⟨_, new_preload_ok_iff.mpr hrun, (keepAll_settings start disk _).2,
    (ordered_keepAll (l := start) List.Pairwise.nil _).nodup, fun p => ?_, fun names e h => ?_⟩
  · have hall : (disk.templates root).takeWhile (isSound disk) = disk.templates root :=
      List.takeWhile_eq_self_iff.mpr hfiles
    rw [isSome_lookup_keepAll_iff, hall, List.mem_map]
    constructor
    · rintro (hstart | ⟨file, hmem, rfl⟩)
      · cases hstart
      · obtain ⟨names, e, h, rfl⟩ := (Disk.mem_templates hwell).mp hmem
        exact ⟨names, e, h, rfl⟩
    · rintro ⟨names, e, h, rfl⟩
      exact Or.inr ⟨_, h.mem_templates hwell, rfl⟩
  · obtain ⟨i, hi, htemplate, -⟩ := lookup_keepAll_of_mem hfiles (Disk.nodup_templates hwell root)
      (h.mem_templates hwell) start
    exact ⟨i, hi, htemplate⟩

/-- Reading the tree beforehand fails with the error of the first broken file. -/
theorem exists_first_broken (hwell : disk.WellNamed) (hbroken : ¬ disk.AllSound root) :
    ∃ names e error, disk.Shows root names e ∧ disk.template root names = .error error ∧
      (∀ others f, disk.Shows root others f → others < names →
        (disk.template root others).isOk = true) ∧
      Loader.new disk root true = .error error := by
  let start : Loader := ⟨root, true, [], 0⟩
  rcases sound_or_split disk (disk.templates root) with hsound |
    ⟨front, file, back, error, hsplit, hfront, herror⟩
  · exact absurd ((allSound_iff hwell).mpr hsound) hbroken
  · have hfails : (start.refresh disk).1 = .error error := by
      rw [refresh, hsplit, keepAll_split hfront herror]
    have hmem : file ∈ disk.templates root := by simp [hsplit]
    obtain ⟨names, e, h, rfl⟩ := (Disk.mem_templates hwell).mp hmem
    refine ⟨names, e, error, h, herror, fun others f hf hlt => ?_,
      new_preload_error_iff.mpr hfails⟩
    exact hfront _ ((Disk.mem_front_iff hwell hsplit h hf).mpr hlt)

/-- Reading the tree beforehand keeps each template file that the walk comes by once, under its path
and as it is read on demand, and get answers these paths only. If one of them is broken, then the
first one is reported. A file can be read if its path is not too long and no directory on the way
keeps paths out. -/
theorem new_preload_exact (hwell : disk.WellNamed) (root : String) :
    (disk.AllSound root → ∃ l, Loader.new disk root true = .ok l ∧
      (l.cache.map Prod.fst).Nodup ∧
      (∀ p, p ∈ l.cache.map Prod.fst ↔ ∃ names e, disk.Shows root names e ∧ p = ofNames names) ∧
      (∀ names e others f, disk.Shows root names e → disk.Shows root others f →
        ofNames names = ofNames others → names = others) ∧
      (∀ later p, (∃ i, (l.get later p).1 = .ok i) ↔
        ∃ names e, disk.Shows root names e ∧ p = ofNames names) ∧
      ∀ names e, disk.Shows root names e → ∃ i, l.cache.lookup (ofNames names) = some i ∧
        e.text = .ok i.template.source ∧
        Template.readNamed (ofNames names) i.template.source = .ok i.template ∧
        ((∀ s ∈ Path.segments (ofNames names).toList, Path.isRefused s = false) →
          ∃ lazy k, Loader.new disk root false = .ok lazy ∧
            (lazy.get disk (ofNames names)).1 = .ok k ∧ k.template = i.template)) ∧
    (¬ disk.AllSound root → ∃ names e error, disk.Shows root names e ∧
      disk.template root names = .error error ∧
      (∀ others f, disk.Shows root others f → others < names →
        (disk.template root others).isOk = true) ∧
      Loader.new disk root true = .error error ∧
      (∀ source, disk.read (below root names) = .ok source →
        (error.kind = .parseError ∨ error.kind = .syntaxError) ∧
          error.name = some (ofNames names)) ∧
      ∀ fault, disk.read (below root names) = .error fault → error.detail =
        some ("template " ++ ofNames names ++ " does not exist or cannot be loaded")) ∧
    ∀ top names e, disk.resolve root = .ok top → top.HasTemplate names e →
      disk.read (below root names) =
        if Disk.longestPath < (below root names).utf8ByteSize then .error .tooLong
        else if top.entered names = true then e.text else .error .denied := by
  refine ⟨fun hsound => ?_, fun hbroken => ?_, fun top names e hroot h => ?_⟩
  · obtain ⟨l, hnew, hholds⟩ := exists_holdsTree hwell hsound
    refine ⟨l, hnew, hholds.nodup, fun p => ?_, ?_, fun later p => ?_, fun names e h => ?_⟩
    · rw [← hholds.kept p, ← not_iff_not, ← NameTable.lookup_eq_none_iff,
        Option.not_isSome_iff_eq_none]
    · intro names e others f h ho hpath
      exact h.file.names_eq hwell ho.file hpath
    · rw [exists_get_iff_of_preload hholds.preload, hholds.kept]
    · obtain ⟨i, hi, htemplate⟩ := hholds.template names e h
      obtain ⟨hread, hnamed⟩ := Disk.template_ok htemplate
      refine ⟨i, hi, h.file.read hwell hread, hnamed, fun hsafe => ?_⟩
      let lazy : Loader := ⟨root, false, [], 0⟩
      have hfetch : lazy.fetch disk (ofNames names) = .ok i.template :=
        fetch_of_hasTemplate hwell h.file htemplate hsafe
      obtain ⟨k, hk, hsame⟩ := exists_get_of_fetch rfl hfetch
      exact ⟨lazy, k, rfl, hk, hsame rfl⟩
  · obtain ⟨names, e, error, h, herror, hfirst, hnew⟩ := exists_first_broken hwell hbroken
    obtain ⟨hsource, hfault⟩ := Disk.template_error herror
    exact ⟨names, e, error, h, herror, hfirst, hnew, hsource, hfault⟩
  · exact Disk.read_below hroot (hwell.resolve hroot) h.found

/-- A tree with a hidden directory, one that cannot be listed and a file that is no template, and a
tree with two broken files, of which the one in the directory comes first. -/
theorem new_preload_exact_nested :
    let top : Entry := .directory [("b.mnd", .file [120]),
      (".h", .directory [("a.mda", .file [121])]),
      ("locked", .folder ⟨false, true⟩ [("c.mnd", .file [123, 123])]), ("n.txt", .file [123, 123])]
    let other : Entry := .directory [("b.mnd", .unreadable "denied"),
      ("a", .directory [("c.mnd", .file [123, 123])])]
    let disk : Disk := ⟨.directory [("t", top), ("u", other), ("w", .directory [])], ["w"]⟩
    disk.WellNamed ∧ disk.AllSound "/t" ∧
      (∃ l, Loader.new disk "/t" true = .ok l ∧
        (∃ i, l.cache.lookup ".h/a.mda" = some i ∧
          Template.readNamed ".h/a.mda" i.template.source = .ok i.template) ∧
        (∃ i lazy k, l.cache.lookup "b.mnd" = some i ∧ Loader.new disk "/t" false = .ok lazy ∧
          (lazy.get disk "b.mnd").1 = .ok k ∧ k.template = i.template)) ∧
      ¬ disk.AllSound "../u" ∧
      ∃ names e error, disk.Shows "../u" names e ∧ disk.template "../u" names = .error error ∧
        Loader.new disk "../u" true = .error error := by
  intro top other disk
  have hwell : disk.WellNamed := by decide +kernel
  have hsound : disk.AllSound "/t" := by
    have hall : (disk.templates "/t").all (isSound disk) = true := by decide +kernel
    exact (allSound_iff hwell).mpr (List.all_eq_true.mp hall)
  have hbroken : ¬ disk.AllSound "../u" := by
    have hall : (disk.templates "../u").all (isSound disk) = false := by decide +kernel
    intro h
    rw [List.all_eq_true.mpr ((allSound_iff hwell).mp h)] at hall
    cases hall
  have hfile : disk.Shows "/t" ["b.mnd"] (.file [120]) :=
    ⟨⟨top, rfl, rfl, trivial, "b.mnd", rfl, ['m', 'n', 'd'], by decide, by decide +kernel⟩,
      by decide +kernel, trivial⟩
  have hdeep : disk.Shows "/t" [".h", "a.mda"] (.file [121]) :=
    ⟨⟨top, rfl, rfl, trivial, "a.mda", rfl, ['m', 'd', 'a'], by decide, by decide +kernel⟩,
      by decide +kernel, by decide +kernel, trivial⟩
  obtain ⟨l, hl, -, -, -, -, hkept⟩ := (new_preload_exact hwell "/t").1 hsound
  obtain ⟨i, hi, -, hnamed, -⟩ := hkept _ _ hdeep
  obtain ⟨j, hj, -, -, hlazy⟩ := hkept _ _ hfile
  obtain ⟨lazy, k, hnew, hk, hsame⟩ := hlazy (by decide +kernel)
  obtain ⟨names, e, error, h, herror, -, hfails, -⟩ :=
    (new_preload_exact hwell "../u").2.1 hbroken
  exact ⟨hwell, hsound, ⟨l, hl, ⟨i, hi, hnamed⟩, j, lazy, k, hj, hnew, hk, hsame⟩, hbroken,
    names, e, error, h, herror, hfails⟩

def nestedTree (name : String) (access : Access) : Entry :=
  .directory [("a.mnd", .file [120]), (name, .folder access [("b.mnd", .file [121])])]

def nested (name : String) (access : Access) : Disk :=
  ⟨.directory [("t", nestedTree name access)], []⟩

section Nested

variable {name : String} {access : Access} {names : List String} {e : Entry}

theorem wellNamed_nestedTree (h : IsName name) (hne : name ≠ "a.mnd") :
    (nestedTree name access).WellNamed := by
  have hfirst : IsName "a.mnd" := by decide
  have hbelow : (Entry.folder access [("b.mnd", .file [121])]).WellNamed :=
    .folder (by decide) (by decide) (by simpa using .file _)
  exact .folder (by simpa using Ne.symm hne) (by simpa using ⟨hfirst, h⟩)
    (by simpa using ⟨.file _, hbelow⟩)

theorem wellNamed_nested (h : IsName name) (hne : name ≠ "a.mnd") :
    (nested name access).WellNamed :=
  Entry.WellNamed.folder (by simp) (by simpa using by decide)
    (by simpa using wellNamed_nestedTree h hne)

theorem resolve_nested : (nested name access).resolve "t" = .ok (nestedTree name access) := rfl

theorem hasTemplate_nestedTree (hne : name ≠ "a.mnd") :
    (nestedTree name access).HasTemplate names e ↔
      names = ["a.mnd"] ∧ e = .file [120] ∨ names = [name, "b.mnd"] ∧ e = .file [121] := by
  have hmnd : ['m', 'n', 'd'] ∈ Path.templateExtensions := List.mem_cons_self
  constructor
  · intro h
    obtain ⟨first, rest, rfl⟩ := List.exists_cons_of_ne_nil h.ne_nil
    obtain ⟨child, hchild, hrest⟩ := (Entry.find?_cons (by simpa using Ne.symm hne)).mp h.found
    rcases List.mem_cons.mp hchild with heq | hchild
    · obtain ⟨rfl, rfl⟩ := Prod.mk.inj heq
      obtain ⟨rfl, rfl⟩ := Entry.eq_of_find? hrest trivial
      exact Or.inl ⟨rfl, rfl⟩
    · obtain ⟨rfl, rfl⟩ := Prod.mk.inj (List.mem_singleton.mp hchild)
      cases rest with
      | nil =>
        obtain rfl := Option.some.inj hrest
        exact h.file.elim
      | cons second rest =>
        obtain ⟨child, hchild, hrest⟩ := (Entry.find?_cons (by simp)).mp hrest
        obtain ⟨rfl, rfl⟩ := Prod.mk.inj (List.mem_singleton.mp hchild)
        obtain ⟨rfl, rfl⟩ := Entry.eq_of_find? hrest trivial
        exact Or.inr ⟨rfl, rfl⟩
  · rintro (⟨rfl, rfl⟩ | ⟨rfl, rfl⟩)
    · exact ⟨by simp [nestedTree, Entry.directory, Entry.find?], trivial, "a.mnd", rfl, _, hmnd,
        by decide +kernel⟩
    · exact ⟨by simp [nestedTree, Entry.directory, Entry.find?, NameTable.lookup_cons, hne], trivial,
        "b.mnd", rfl, _, hmnd, by decide +kernel⟩

/-- A file is read from a directory that lets paths through, if its path is not too long. -/
theorem isOk_template_nested (h : IsName name) (hne : name ≠ "a.mnd")
    (hroot : (nested name access).resolve root = .ok (nestedTree name access))
    (hentered : access.entered = true) (hfile : (nestedTree name access).HasTemplate names e) :
    ((nested name access).template root names).isOk = true ↔
      (below root names).utf8ByteSize ≤ Disk.longestPath := by
  have hread := Disk.read_below hroot (wellNamed_nestedTree h hne) hfile.found
  have hthrough : (nestedTree name access).entered names = true := by
    rcases (hasTemplate_nestedTree hne).mp hfile with ⟨rfl, -⟩ | ⟨rfl, -⟩ <;>
      simp [nestedTree, Entry.directory, Entry.entered, NameTable.lookup_cons, hne, hentered]
  have hsource : ∃ source, e.text = .ok source ∧ ∀ n, (Template.readNamed n source).isOk = true := by
    rcases (hasTemplate_nestedTree hne).mp hfile with ⟨-, rfl⟩ | ⟨-, rfl⟩
    · exact ⟨"x", by decide +kernel, fun _ => rfl⟩
    · exact ⟨"y", by decide +kernel, fun _ => rfl⟩
  obtain ⟨source, htext, hsound⟩ := hsource
  rw [hthrough, if_pos rfl, htext] at hread
  rw [Disk.template, Disk.templateOf, hread, ← Nat.not_lt]
  by_cases hlong : Disk.longestPath < (below root names).utf8ByteSize
  · simp [hlong, Template.ofContent, Except.isOk, Except.toBool]
  · rw [if_neg hlong]
    exact iff_of_true (hsound _) hlong

/-- What lies in the directory is left out if it cannot be listed. -/
theorem exists_new_nested (h : IsName name) (hne : name ≠ "a.mnd")
    (hroot : (nested name access).resolve root = .ok (nestedTree name access))
    (hhidden : (nested name access).lists (join root name) = false)
    (hfirst : ((nested name access).template root ["a.mnd"]).isOk = true) :
    ∃ l, Loader.new (nested name access) root true = .ok l ∧
      l.cache.lookup (ofNames [name, "b.mnd"]) = none := by
  have hwell : (nested name access).WellNamed := wellNamed_nested h hne
  have hshows {names : List String} {e : Entry} (hs : (nested name access).Shows root names e) :
      names = ["a.mnd"] := by
    obtain ⟨⟨top, htop, htemplate⟩, hlisted⟩ := hs
    obtain rfl := Except.ok.inj (hroot.symm.trans htop)
    rcases (hasTemplate_nestedTree hne).mp htemplate with ⟨rfl, -⟩ | ⟨rfl, -⟩
    · rfl
    · exact absurd hlisted.2.1 (by simp [hhidden])
  obtain ⟨l, hl, hholds⟩ := exists_holdsTree hwell fun names e hs => by rwa [hshows hs]
  refine ⟨l, hl, ?_⟩
  rw [← Option.not_isSome_iff_eq_none, hholds.kept]
  rintro ⟨names, e, hs, hpath⟩
  obtain rfl := hshows hs
  have hb : IsName "b.mnd" := by decide
  have heq := Path.ofNames_inj (by simpa using ⟨h, hb⟩) (hs.file.isName hwell) hpath
  cases heq

/-- A directory whose path is too long cannot be listed, and what lies there cannot be read. -/
theorem exists_new_nested_deep (h : IsName name) (hne : name ≠ "a.mnd")
    (hroot : (nested name ⟨true, true⟩).resolve root = .ok (nestedTree name ⟨true, true⟩))
    (hshort : root.utf8ByteSize + 6 ≤ Disk.longestPath)
    (hlong : Disk.longestPath < root.utf8ByteSize + name.utf8ByteSize) :
    ((nested name ⟨true, true⟩).template root [name, "b.mnd"]).isOk = false ∧
      ∃ l, Loader.new (nested name ⟨true, true⟩) root true = .ok l ∧
        l.cache.lookup (ofNames [name, "b.mnd"]) = none := by
  have hdeep : Disk.longestPath < (join root name).utf8ByteSize :=
    hlong.trans_le (Path.utf8ByteSize_join root h).1
  have hsecond : ∀ name ∈ ["b.mnd"], IsName name := by decide
  constructor
  · rw [← Bool.not_eq_true, isOk_template_nested h hne hroot rfl
      ((hasTemplate_nestedTree hne).mpr (Or.inr ⟨rfl, rfl⟩)), Nat.not_le]
    exact hdeep.trans_le (Path.utf8ByteSize_le_below (join root name) hsecond)
  · refine exists_new_nested h hne hroot ?_ ?_
    · rw [Disk.lists, Disk.resolve, if_pos hdeep]
    · rw [isOk_template_nested h hne hroot rfl
        ((hasTemplate_nestedTree hne).mpr (Or.inl ⟨rfl, rfl⟩))]
      have hfirst : IsName "a.mnd" := by decide
      exact (Path.utf8ByteSize_join root hfirst).2.trans hshort

end Nested

/-- Without the exception the statement does not hold: a directory that cannot be listed hides a
file that can be read, and one that lies too deep hides a file that cannot be read from there. -/
theorem new_preload_skips_unlisted :
    let shut := nested "locked" ⟨false, true⟩
    let name := String.ofList (List.replicate 200 'd')
    let root := "t" ++ String.ofList (List.replicate 4000 '/')
    let deep := nested name ⟨true, true⟩
    (shut.WellNamed ∧ shut.HasTemplate "t" ["locked", "b.mnd"] (.file [121]) ∧
      (∀ names e, shut.HasTemplate "t" names e → (shut.template "t" names).isOk = true) ∧
      ∃ l, Loader.new shut "t" true = .ok l ∧ l.cache.lookup "locked/b.mnd" = none) ∧
    deep.WellNamed ∧ deep.HasTemplate root [name, "b.mnd"] (.file [121]) ∧
      (deep.template "t" [name, "b.mnd"]).isOk = true ∧
      (deep.template root [name, "b.mnd"]).isOk = false ∧
      ∃ l, Loader.new deep root true = .ok l ∧ l.cache.lookup (ofNames [name, "b.mnd"]) = none := by
  intro shut name root deep
  have hlocked : IsName "locked" := by decide
  have hletters : name.toList = List.replicate 200 'd' := String.toList_ofList
  have hother (text : String) (htext : text.toList ≠ List.replicate 200 'd') : name ≠ text :=
    fun heq => htext (heq ▸ hletters)
  have hne : name ≠ "a.mnd" := hother "a.mnd" (by decide)
  have hname : IsName name :=
    ⟨hother "" (by decide),
      fun hslash => absurd (List.eq_of_mem_replicate (hletters ▸ hslash)) (by decide),
      hother "." (by decide), hother ".." (by decide)⟩
  have hsize : name.utf8ByteSize = 200 := Path.utf8ByteSize_replicate 200 'd'
  have hrootSize : root.utf8ByteSize = 4001 := by
    rw [String.utf8ByteSize_append, Path.utf8ByteSize_replicate]
    rfl
  have hroot : deep.resolve root = .ok (nestedTree name ⟨true, true⟩) :=
    Disk.resolve_slashes resolve_nested 4000 (by decide)
  have hfile : (nestedTree name ⟨true, true⟩).HasTemplate [name, "b.mnd"] (.file [121]) :=
    (hasTemplate_nestedTree hne).mpr (Or.inr ⟨rfl, rfl⟩)
  refine ⟨⟨wellNamed_nested hlocked (by decide), ?_, ?_, ?_⟩, wellNamed_nested hname hne,
    ⟨_, hroot, hfile⟩, ?_, ?_⟩
  · exact ⟨_, resolve_nested, (hasTemplate_nestedTree (by decide)).mpr (Or.inr ⟨rfl, rfl⟩)⟩
  · rintro names e ⟨top, htop, h⟩
    obtain rfl := Except.ok.inj (resolve_nested.symm.trans htop)
    rcases (hasTemplate_nestedTree (by decide)).mp h with ⟨rfl, -⟩ | ⟨rfl, -⟩ <;> decide +kernel
  · exact exists_new_nested hlocked (by decide) resolve_nested (by decide +kernel)
      (by decide +kernel)
  · rw [isOk_template_nested hname hne resolve_nested rfl hfile]
    have hsecond : IsName "b.mnd" := by decide
    have hnext := (Path.utf8ByteSize_join "t" hname).2
    have hsizes : "t".utf8ByteSize = 1 ∧ "b.mnd".utf8ByteSize = 5 := ⟨rfl, rfl⟩
    refine (Path.utf8ByteSize_join (join "t" name) hsecond).2.trans ?_
    rw [Disk.longestPath]
    omega
  · refine exists_new_nested_deep hname hne hroot ?_ ?_ <;> rw [Disk.longestPath] <;> omega

end Loader

end Stencil
