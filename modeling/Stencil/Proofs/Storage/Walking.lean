import Stencil.Proofs.Storage.Reading
import Stencil.Storage.Loader

/-! # The template files below a root

The walk from a root comes by the template files that the directories on the way show, each of them
once and in the order of the names that lead there. -/
namespace Stencil

open Stencil.Path (ofNames below)

theorem Template.readNamed_cases (name source : String) :
    (∃ nodes, readNamed name source = .ok ⟨some name, source, nodes⟩) ∨
      ∃ fault : PlacedFault, readNamed name source = .error (fault.error.inTemplate name) := by
  unfold readNamed read
  cases parseNodes source.toList with
  | ok nodes => exact Or.inl ⟨nodes, rfl⟩
  | error fault => exact Or.inr ⟨fault, rfl⟩

theorem Template.source_of_readNamed {name source : String} {t : Template}
    (h : readNamed name source = .ok t) : t.source = source := by
  rcases readNamed_cases name source with ⟨nodes, hok⟩ | ⟨fault, herror⟩
  · rw [hok] at h
    rw [← Except.ok.inj h]
  · rw [herror] at h
    cases h

/-- A broken source is reported under its name, as an error of the template language. -/
theorem Template.error_of_readNamed {name source : String} {error : Error}
    (h : readNamed name source = .error error) :
    (error.kind = .parseError ∨ error.kind = .syntaxError) ∧ error.name = some name := by
  rcases readNamed_cases name source with ⟨nodes, hok⟩ | ⟨fault, herror⟩
  · rw [hok] at h
    cases h
  · rw [herror] at h
    rw [← Except.error.inj h]
    refine ⟨?_, rfl⟩
    show fault.fault.error.kind = _ ∨ fault.fault.error.kind = _
    cases fault.fault with
    | expression f => exact Or.inr rfl
    | unclosedTag | empty | unnamedSection | elseOutside | badConditional | unopenedClose
    | crossedClose | unclosedSection => exact Or.inl rfl

namespace Disk

variable {disk : Disk} {root : String} {names others : List String} {e f : Entry}

/-- Whether names lead from a root to a template file. -/
def HasTemplate (disk : Disk) (root : String) (names : List String) (e : Entry) : Prop :=
  ∃ top, disk.resolve root = .ok top ∧ top.HasTemplate names e

/-- Whether names lead from a root to a template file, through directories that can be listed. -/
structure Shows (disk : Disk) (root : String) (names : List String) (e : Entry) : Prop where
  file : disk.HasTemplate root names e
  listed : disk.Listed root names

/-- What a file gives as the template of a name. -/
def templateOf (disk : Disk) (found : String × String) : Except Error Template :=
  Template.ofContent found.1 (disk.read found.2)

/-- What the file along names from a root gives. -/
def template (disk : Disk) (root : String) (names : List String) : Except Error Template :=
  disk.templateOf (ofNames names, below root names)

theorem HasTemplate.isName (hwell : disk.WellNamed) (h : disk.HasTemplate root names e) :
    ∀ name ∈ names, Path.IsName name := by
  obtain ⟨top, hroot, htop⟩ := h
  exact (hwell.resolve hroot).names_of_find? htop.found

theorem HasTemplate.ne_nil (h : disk.HasTemplate root names e) : names ≠ [] := by
  obtain ⟨top, -, htop⟩ := h
  exact htop.ne_nil

/-- A file is known by its name. -/
theorem HasTemplate.names_eq (hwell : disk.WellNamed) (h : disk.HasTemplate root names e)
    (ho : disk.HasTemplate root others f) (hpath : ofNames names = ofNames others) :
    names = others :=
  Path.ofNames_inj (h.isName hwell) (ho.isName hwell) hpath

theorem HasTemplate.read (hwell : disk.WellNamed) (h : disk.HasTemplate root names e)
    {source : String} (hread : disk.read (below root names) = .ok source) :
    e.text = .ok source := by
  obtain ⟨top, hroot, htop⟩ := h
  rw [read_below hroot (hwell.resolve hroot) htop.found] at hread
  split at hread
  · cases hread
  · split at hread
    · exact hread
    · cases hread

theorem template_ok {t : Template} (h : disk.template root names = .ok t) :
    disk.read (below root names) = .ok t.source ∧
      Template.readNamed (ofNames names) t.source = .ok t := by
  unfold template templateOf Template.ofContent at h
  cases hread : disk.read (below root names) with
  | ok source =>
    simp only [hread] at h
    rw [Template.source_of_readNamed h]
    exact ⟨rfl, h⟩
  | error fault =>
    simp only [hread] at h
    cases h

theorem template_error {error : Error} (h : disk.template root names = .error error) :
    (∀ source, disk.read (below root names) = .ok source →
      (error.kind = .parseError ∨ error.kind = .syntaxError) ∧ error.name = some (ofNames names)) ∧
    ∀ fault, disk.read (below root names) = .error fault → error.detail =
      some ("template " ++ ofNames names ++ " does not exist or cannot be loaded") := by
  unfold template templateOf Template.ofContent at h
  cases hread : disk.read (below root names) with
  | ok source =>
    simp only [hread] at h
    exact ⟨fun _ _ => Template.error_of_readNamed h, fun _ hfault => by cases hfault⟩
  | error fault =>
    simp only [hread] at h
    refine ⟨fun _ hsource => (by cases hsource), fun _ _ => ?_⟩
    rw [← Except.error.inj h]
    rfl

theorem templates_cases (disk : Disk) (root : String) :
    (disk.templates root = [] ∧ ∀ names e, ¬ disk.HasTemplate root names e) ∨
    ∃ top, disk.resolve root = .ok top ∧ ¬ top.IsFile ∧
      disk.templates root = disk.templatesAt "" root top := by
  unfold templates
  cases hroot : disk.resolve root with
  | error fault =>
    refine Or.inl ⟨rfl, ?_⟩
    rintro names e ⟨top, htop, -⟩
    rw [hroot] at htop
    cases htop
  | ok top =>
    cases top with
    | folder access children => exact Or.inr ⟨_, rfl, not_false, rfl⟩
    | file | unreadable =>
      refine Or.inl ⟨rfl, ?_⟩
      rintro names e ⟨top, htop, h⟩
      obtain rfl := Except.ok.inj (hroot.symm.trans htop)
      exact h.ne_nil (Entry.eq_of_find? h.found trivial).1

/-- The walk comes by the template files that are shown, and by nothing else. -/
theorem mem_templates (hwell : disk.WellNamed) {found : String × String} :
    found ∈ disk.templates root ↔
      ∃ names e, disk.Shows root names e ∧ found = (ofNames names, below root names) := by
  rcases disk.templates_cases root with ⟨hnil, hnone⟩ | ⟨top, hroot, hfolder, htemplates⟩
  · rw [hnil]
    constructor
    · intro hmem
      cases hmem
    · rintro ⟨names, e, h, -⟩
      exact absurd h.file (hnone names e)
  · have htop := hwell.resolve hroot
    have hpath := ne_empty_of_resolve hroot
    rw [htemplates, mem_templatesAt htop]
    constructor
    · rintro ⟨names, e, hfind, hfile, hlisted, rfl, htemplate⟩
      have hnames := htop.names_of_find? hfind
      have hne : names ≠ [] := by
        rintro rfl
        exact hfolder (Option.some.inj hfind ▸ hfile)
      have hextension := (Path.isTemplate_below hpath hne hnames).mp htemplate
      refine ⟨names, e, ⟨⟨top, hroot, hfind, hfile, hextension⟩, hlisted⟩, ?_⟩
      rw [foundAt, Entry.foldl_childPath_empty hnames]
    · rintro ⟨names, e, ⟨⟨top', hroot', h⟩, hlisted⟩, rfl⟩
      obtain rfl := Except.ok.inj (hroot.symm.trans hroot')
      have hnames := htop.names_of_find? h.found
      refine ⟨names, e, h.found, h.file, hlisted, ?_, ?_⟩
      · rw [foundAt, Entry.foldl_childPath_empty hnames]
      · exact (Path.isTemplate_below hpath h.ne_nil hnames).mpr h.extension

theorem Shows.mem_templates (hwell : disk.WellNamed) (h : disk.Shows root names e) :
    (ofNames names, below root names) ∈ disk.templates root :=
  (Disk.mem_templates hwell).mpr ⟨names, e, h, rfl⟩

/-- The walk comes by the files in the order of the names that lead to them. -/
theorem pairwise_templates (hwell : disk.WellNamed) (root : String) :
    (disk.templates root).Pairwise fun a b => ∃ names others,
      (∀ name ∈ names, Path.IsName name) ∧ (∀ name ∈ others, Path.IsName name) ∧
      a.1 = ofNames names ∧ b.1 = ofNames others ∧ names < others := by
  rcases disk.templates_cases root with ⟨hnil, -⟩ | ⟨top, hroot, -, htemplates⟩
  · rw [hnil]
    exact List.Pairwise.nil
  · have htop := hwell.resolve hroot
    rw [htemplates]
    refine (pairwise_templatesAt disk htop "" root).imp ?_
    rintro a b ⟨names, others, ha, hb, rfl, rfl, hlt⟩
    obtain ⟨e, he⟩ := Option.isSome_iff_exists.mp ha
    obtain ⟨f, hf⟩ := Option.isSome_iff_exists.mp hb
    have hnames := htop.names_of_find? he
    have hothers := htop.names_of_find? hf
    exact ⟨names, others, hnames, hothers, Entry.foldl_childPath_empty hnames,
      Entry.foldl_childPath_empty hothers, hlt⟩

theorem nodup_templates (hwell : disk.WellNamed) (root : String) :
    ((disk.templates root).map Prod.fst).Nodup := by
  rw [List.Nodup, List.pairwise_map]
  refine (pairwise_templates hwell root).imp ?_
  rintro a b ⟨names, others, hnames, hothers, ha, hb, hlt⟩ heq
  rw [ha, hb] at heq
  obtain rfl := Path.ofNames_inj hnames hothers heq
  exact lt_irrefl names hlt

/-- In front of a find stand those with smaller names. -/
theorem mem_front_iff (hwell : disk.WellNamed) {front back : List (String × String)}
    (hsplit : disk.templates root = front ++ (ofNames names, below root names) :: back)
    (h : disk.Shows root names e) (ho : disk.Shows root others f) :
    (ofNames others, below root others) ∈ front ↔ others < names := by
  have hpairs := pairwise_templates hwell root
  rw [hsplit, List.pairwise_append, List.pairwise_cons] at hpairs
  obtain ⟨-, ⟨hback, -⟩, hfront⟩ := hpairs
  have hnames := h.file.isName hwell
  have hothers := ho.file.isName hwell
  constructor
  · intro hmem
    obtain ⟨ms, ns, hms, hns, hother, hname, hlt⟩ := hfront _ hmem _ List.mem_cons_self
    rwa [Path.ofNames_inj hothers hms hother, Path.ofNames_inj hnames hns hname]
  · intro hlt
    have hmem := ho.mem_templates hwell
    rw [hsplit, List.mem_append, List.mem_cons] at hmem
    rcases hmem with hmem | hmem | hmem
    · exact hmem
    · rw [ho.file.names_eq hwell h.file (congrArg Prod.fst hmem)] at hlt
      exact absurd hlt (lt_irrefl names)
    · obtain ⟨ns, ms, hns, hms, hname, hother, hgt⟩ := hback _ hmem
      rw [← Path.ofNames_inj hothers hms hother, ← Path.ofNames_inj hnames hns hname] at hgt
      exact absurd hlt (lt_asymm hgt)

end Disk

end Stencil
