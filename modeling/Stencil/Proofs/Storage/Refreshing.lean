import Stencil.Proofs.Storage.Memo

/-! # Reading the tree again

A refresh goes through the template files in the order of their names. One that fails has kept the
files in front of the broken one already, and nothing else changes. The walk does not refuse any
path, so a path that get refuses is served once a refresh has met a file there. -/
namespace Stencil

open Stencil.Path (ofNames below)

variable {disk : Disk} {q root : String}

/-- The paths that a refresh keeps: those in front of the first broken file. -/
def Disk.soundPaths (disk : Disk) (root : String) : List String :=
  ((disk.templates root).takeWhile (Loader.isSound disk)).map Prod.fst

namespace Loader

/-- A refresh that fails does so at the first broken file that it comes by. The files with smaller
names are kept as they are read now, each as an instance that was not there before and that no other
path has, and under all other paths nothing changes. -/
theorem refresh_keeps_up_to_fault (hwell : disk.WellNamed) (l : Loader) {error : Error}
    (h : (l.refresh disk).1 = .error error) :
    ∃ names e, disk.Shows l.root names e ∧ disk.template l.root names = .error error ∧
      (∀ others f, disk.Shows l.root others f → others < names →
        ∃ i, (l.refresh disk).2.cache.lookup (ofNames others) = some i ∧
          disk.template l.root others = .ok i.template ∧ f.text = .ok i.template.source ∧
          l.next ≤ i.identity ∧
          (l.Reachable →
            (∀ p k, l.cache.lookup p = some k → k.identity ≠ i.identity) ∧
            ∀ p k, (l.refresh disk).2.cache.lookup p = some k → k.identity = i.identity →
              p = ofNames others)) ∧
      ∀ q, (∀ others f, disk.Shows l.root others f → others < names → q ≠ ofNames others) →
        (l.refresh disk).2.cache.lookup q = l.cache.lookup q := by
  rcases sound_or_split disk (disk.templates l.root) with hsound |
    ⟨front, file, back, found, hsplit, hfront, hfound⟩
  · rw [refresh, keepAll_ok hsound] at h
    cases h
  · have hrun : l.refresh disk = (.error found, (l.keepAll disk front).2) := by
      rw [refresh, hsplit, keepAll_split hfront hfound]
    rw [hrun] at h ⊢
    obtain rfl := Except.error.inj h
    have hmem : file ∈ disk.templates l.root := by simp [hsplit]
    obtain ⟨names, e, hnames, rfl⟩ := (Disk.mem_templates hwell).mp hmem
    have hnodup : (front.map Prod.fst).Nodup := by
      have hall := Disk.nodup_templates hwell l.root
      rw [hsplit, List.map_append] at hall
      exact (List.nodup_append.mp hall).1
    refine ⟨names, e, hnames, hfound, fun others f hf hlt => ?_, fun q hq => ?_⟩
    · have hin := (Disk.mem_front_iff hwell hsplit hnames hf).mpr hlt
      obtain ⟨i, hi, htemplate, hnew⟩ := lookup_keepAll_of_mem hfront hnodup hin l
      have htext := hf.file.read hwell (Disk.template_ok htemplate).1
      refine ⟨i, hi, htemplate, htext, hnew, fun hreachable => ⟨fun p k hk hsame => ?_, ?_⟩⟩
      · have hold := hreachable.numbered.below hk
        omega
      · intro p k hk hsame
        exact (numbered_keepAll hreachable.numbered disk front).own hk hi hsame
    · refine lookup_keepAll_of_notMem (fun hin => ?_) l
      obtain ⟨found, hfront', rfl⟩ := List.mem_map.mp hin
      have hall : found ∈ disk.templates l.root := by simp [hsplit, hfront']
      obtain ⟨others, f, hothers, rfl⟩ := (Disk.mem_templates hwell).mp hall
      exact hq others f hothers ((Disk.mem_front_iff hwell hsplit hnames hothers).mp hfront') rfl

/-- A broken template in a directory, between two that are sound, below a path from the root. -/
theorem refresh_keeps_up_to_fault_between :
    let disk : Disk := ⟨.directory [("t", .directory [("c.mnd", .file [50]),
      ("b", .directory [("a.mnd", .file [123, 123])]), ("a.mnd", .file [50])])], []⟩
    let l := (⟨"/t", false, [], 0⟩ : Loader).afterAll [(disk, .add "c.mnd" ⟨none, "1", []⟩)]
    disk.WellNamed ∧ l.Reachable ∧ ∃ error, (l.refresh disk).1 = .error error ∧
      ∃ names e, disk.Shows l.root names e ∧ disk.template l.root names = .error error ∧
        (∀ others f, disk.Shows l.root others f → others < names →
          ∃ i, (l.refresh disk).2.cache.lookup (ofNames others) = some i ∧
            disk.template l.root others = .ok i.template ∧ f.text = .ok i.template.source ∧
            l.next ≤ i.identity ∧
            (∀ p k, l.cache.lookup p = some k → k.identity ≠ i.identity) ∧
            ∀ p k, (l.refresh disk).2.cache.lookup p = some k → k.identity = i.identity →
              p = ofNames others) ∧
        ∀ q, (∀ others f, disk.Shows l.root others f → others < names → q ≠ ofNames others) →
          (l.refresh disk).2.cache.lookup q = l.cache.lookup q := by
  intro disk l
  have hwell : disk.WellNamed := by decide +kernel
  have hreachable : l.Reachable := ⟨disk, "/t", false, _, _, rfl, rfl⟩
  have hfails : (l.refresh disk).1.isOk = false := by decide +kernel
  obtain ⟨error, herror⟩ := exists_of_not_isOk hfails
  obtain ⟨names, e, hshows, hbroken, hfront, hothers⟩ := refresh_keeps_up_to_fault hwell l herror
  refine ⟨hwell, hreachable, error, herror, names, e, hshows, hbroken, fun others f hf hlt => ?_,
    hothers⟩
  obtain ⟨i, hi, htemplate, htext, hnext, hnew⟩ := hfront others f hf hlt
  exact ⟨i, hi, htemplate, htext, hnext, hnew hreachable⟩

/-- A refresh that fails can have changed what is kept. -/
theorem refresh_changes_before_fault :
    let before : Disk := ⟨.directory [("t", .directory [("a.mnd", .file [49])])], []⟩
    let disk : Disk := ⟨.directory [("t", .directory [("a.mnd", .file [50]),
      ("b.mnd", .file [123, 123])])], []⟩
    let l := ((⟨"t", false, [], 0⟩ : Loader).get before "a.mnd").2
    disk.WellNamed ∧ (∃ error, (l.refresh disk).1 = .error error) ∧
      (l.cache.lookup "a.mnd").map (·.template.source) = some "1" ∧
      ((l.refresh disk).2.cache.lookup "a.mnd").map (·.template.source) = some "2" := by
  intro before disk l
  have hfails : (l.refresh disk).1.isOk = false := by decide +kernel
  exact ⟨by decide +kernel, exists_of_not_isOk hfails, by decide +kernel, by decide +kernel⟩

theorem fetch_of_refused (hq : (Path.segments q.toList).any Path.isRefused = true) (l : Loader)
    (disk : Disk) : l.fetch disk q = .error (Template.notFound q) := by
  have hjoin : Path.safeJoin? l.root q = none := by rw [Path.safeJoin?, if_pos hq]
  rw [fetch, hjoin]

theorem get_of_refused (hq : (Path.segments q.toList).any Path.isRefused = true) (l : Loader)
    (disk : Disk) : (l.get disk q).2 = l ∧
      ((l.get disk q).1 = .error (Template.notFound q) ↔ ¬ (l.cache.lookup q).isSome) := by
  have hfetch := fetch_of_refused hq l disk
  rcases get_cases l disk q with ⟨i, hi, hget⟩ | ⟨-, t, -, ht, -⟩ | ⟨e, hnone, hget, hwhy⟩
  · simp [hget, hi]
  · rw [hfetch] at ht
    cases ht
  · have he : e = Template.notFound q := by
      rcases hwhy with ⟨-, he⟩ | ⟨-, he⟩
      · exact he
      · exact Except.error.inj (he.symm.trans hfetch)
    simp [hget, hnone, he]

/-- A refused path comes into the cache only by a refresh that meets a file there. -/
theorem isSome_lookup_after_iff (hq : (Path.segments q.toList).any Path.isRefused = true)
    (l : Loader) (disk : Disk) {c : Call} (hadd : ∀ t, c ≠ .add q t) :
    ((l.after disk c).cache.lookup q).isSome ↔
      (l.cache.lookup q).isSome ∨ c = .refresh ∧ q ∈ disk.soundPaths l.root := by
  cases c with
  | get path =>
    by_cases hp : q = path
    · subst hp
      rw [after, (get_of_refused hq l disk).1]
      simp
    · rw [after, lookup_get_of_ne hp]
      simp
  | add path t =>
    have hne : q ≠ path := fun heq => hadd t (heq ▸ rfl)
    rw [after, add, lookup_keep, if_neg hne]
    simp
  | refresh =>
    rw [after, refresh, isSome_lookup_keepAll_iff, Disk.soundPaths]
    simp

theorem isSome_lookup_afterAll_iff (hq : (Path.segments q.toList).any Path.isRefused = true)
    (l : Loader) {calls : List (Disk × Call)} (hadd : ∀ c ∈ calls, ∀ t, c.2 ≠ .add q t) :
    ((l.afterAll calls).cache.lookup q).isSome ↔ (l.cache.lookup q).isSome ∨
      ∃ c ∈ calls, c.2 = .refresh ∧ q ∈ c.1.soundPaths l.root := by
  induction calls generalizing l with
  | nil => simp [afterAll]
  | cons c rest ih =>
    obtain ⟨hc, hrest⟩ := List.forall_mem_cons.mp hadd
    have hstep := isSome_lookup_after_iff hq l c.1 hc
    have hroot := (after_settings l c.1 c.2).1
    have hrun : l.afterAll (c :: rest) = (l.after c.1 c.2).afterAll rest := rfl
    rw [hrun, ih _ hrest, hstep, hroot, List.exists_mem_cons_iff, or_assoc]

theorem isSome_lookup_new_iff {preload : Bool} {l : Loader}
    (h : Loader.new disk root preload = .ok l) :
    l.root = root ∧ ((l.cache.lookup q).isSome ↔ preload = true ∧ q ∈ disk.soundPaths root) := by
  cases preload with
  | false =>
    obtain rfl := Except.ok.inj h
    simp
  | true =>
    have hrun := new_preload_ok_iff.mp h
    have hkept := isSome_lookup_keepAll_iff ⟨root, true, [], 0⟩ disk (disk.templates root) q
    have hsettings := keepAll_settings ⟨root, true, [], 0⟩ disk (disk.templates root)
    rw [refresh] at hrun
    rw [hrun] at hkept hsettings
    exact ⟨hsettings.1, by simpa [Disk.soundPaths] using hkept⟩

/-- In every run of a loader, a path that get refuses and that is never added is unknown unless the
walk, beforehand or in a refresh, has met a sound file there. -/
theorem get_refused_iff {preload : Bool} {l : Loader} (hnew : Loader.new disk root preload = .ok l)
    (hq : (Path.segments q.toList).any Path.isRefused = true) {calls : List (Disk × Call)}
    (hadd : ∀ c ∈ calls, ∀ t, c.2 ≠ .add q t) (later : Disk) :
    ((l.afterAll calls).get later q).1 = .error (Template.notFound q) ↔
      ¬ ((preload = true ∧ q ∈ disk.soundPaths root) ∨
        ∃ c ∈ calls, c.2 = .refresh ∧ q ∈ c.1.soundPaths root) := by
  obtain ⟨hroot, hstart⟩ := isSome_lookup_new_iff (q := q) hnew
  rw [(get_of_refused hq _ later).2, isSome_lookup_afterAll_iff hq l hadd, hstart, hroot]

/-- A hidden template is unknown to a loader that reads on demand until the tree is read again. -/
theorem get_refused_iff_hidden :
    let disk : Disk :=
      ⟨.directory [("t", .directory [(".h", .directory [("a.mnd", .file [49])])])], []⟩
    let l : Loader := ⟨"t", false, [], 0⟩
    let q := ".h/a.mnd"
    Loader.new disk "t" false = .ok l ∧ (Path.segments q.toList).any Path.isRefused = true ∧
      (∀ c ∈ [(disk, Call.get q)], ∀ t, c.2 ≠ .add q t) ∧
      ((l.afterAll [(disk, .get q)]).get disk q).1 = .error (Template.notFound q) ∧
      (∀ c ∈ [(disk, Call.refresh)], ∀ t, c.2 ≠ .add q t) ∧
      ((l.afterAll [(disk, .refresh)]).get disk q).1 ≠ .error (Template.notFound q) := by
  intro disk l q
  have hnew : Loader.new disk "t" false = .ok l := rfl
  have hq : (Path.segments q.toList).any Path.isRefused = true := by decide +kernel
  have hget : ∀ c ∈ [(disk, Call.get q)], ∀ t, c.2 ≠ .add q t := by simp
  have hrefresh : ∀ c ∈ [(disk, Call.refresh)], ∀ t, c.2 ≠ .add q t := by simp
  have hfound : q ∈ disk.soundPaths "t" := by decide +kernel
  refine ⟨hnew, hq, hget, (get_refused_iff hnew hq hget disk).mpr (by simp), hrefresh, ?_⟩
  rw [Ne, get_refused_iff hnew hq hrefresh disk, not_not]
  exact Or.inr ⟨_, List.mem_cons_self, rfl, hfound⟩

/-- A loader that has read the tree beforehand serves hidden templates. -/
theorem get_serves_refused :
    let disk : Disk :=
      ⟨.directory [("t", .directory [(".h", .directory [("a.mnd", .file [49])])])], []⟩
    disk.WellNamed ∧ (Path.segments ".h/a.mnd".toList).any Path.isRefused = true ∧
      ∃ l i, Loader.new disk "t" true = .ok l ∧ (l.get disk ".h/a.mnd").1 = .ok i := by
  intro disk
  have hsucceeds : (Loader.new disk "t" true).isOk = true := by decide +kernel
  obtain ⟨l, hl⟩ := exists_of_isOk hsucceeds
  have hfound : ".h/a.mnd" ∈ disk.soundPaths "t" := by decide +kernel
  have hkept := (isSome_lookup_new_iff hl).2.mpr ⟨rfl, hfound⟩
  obtain ⟨i, hi⟩ := Option.isSome_iff_exists.mp hkept
  exact ⟨by decide +kernel, by decide +kernel, l, i, hl, by rw [get_of_lookup hi]⟩

end Loader

end Stencil
