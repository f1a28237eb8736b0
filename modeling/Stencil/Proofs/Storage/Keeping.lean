import Stencil.Proofs.Storage.Walking

/-! # What a loader keeps

A refresh keeps the files that it is given one by one, up to the first one that is broken. So the
files in front of that one are kept as they are read now, and all other paths keep what they had.
-/
namespace Stencil

theorem exists_of_isOk {ε α : Type} {r : Except ε α} (h : r.isOk = true) : ∃ a, r = .ok a := by
  cases r with
  | ok a => exact ⟨a, rfl⟩
  | error e => cases h

theorem exists_of_not_isOk {ε α : Type} {r : Except ε α} (h : r.isOk = false) :
    ∃ e, r = .error e := by
  cases r with
  | ok a => cases h
  | error e => exact ⟨e, rfl⟩

namespace Loader

variable {l : Loader} {disk : Disk} {files front back : List (String × String)}
variable {file : String × String} {q : String}

/-- Whether a file can be read as the template of its name. -/
def isSound (disk : Disk) (file : String × String) : Bool := (disk.templateOf file).isOk

theorem lookup_keep (l : Loader) (path : String) (t : Template) (q : String) :
    (l.keep path t).cache.lookup q = if q = path then some ⟨l.next, t⟩ else l.cache.lookup q :=
  MemoTable.lookup_replace path _ l.cache q

theorem keepAll_sound {t : Template} (h : disk.templateOf file = .ok t) (l : Loader) :
    l.keepAll disk (file :: back) = (l.keep file.1 t).keepAll disk back := by
  unfold Disk.templateOf at h
  rw [keepAll, h]

theorem keepAll_broken {error : Error} (h : disk.templateOf file = .error error) (l : Loader) :
    l.keepAll disk (file :: back) = (.error error, l) := by
  unfold Disk.templateOf at h
  rw [keepAll, h]

/-- Sound files are passed. -/
theorem keepAll_append (h : ∀ file ∈ front, isSound disk file = true) (l : Loader) :
    l.keepAll disk (front ++ back) = (l.keepAll disk front).2.keepAll disk back := by
  induction front generalizing l with
  | nil => rfl
  | cons file rest ih =>
    obtain ⟨hfile, hrest⟩ := List.forall_mem_cons.mp h
    obtain ⟨t, ht⟩ := exists_of_isOk hfile
    rw [List.cons_append, keepAll_sound ht, keepAll_sound ht, ih hrest]

theorem keepAll_ok (h : ∀ file ∈ files, isSound disk file = true) (l : Loader) :
    (l.keepAll disk files).1 = .ok () := by
  induction files generalizing l with
  | nil => rfl
  | cons file rest ih =>
    obtain ⟨hfile, hrest⟩ := List.forall_mem_cons.mp h
    obtain ⟨t, ht⟩ := exists_of_isOk hfile
    rw [keepAll_sound ht]
    exact ih hrest _

/-- All files are sound, or there is a first one that is not. -/
theorem sound_or_split (disk : Disk) (files : List (String × String)) :
    (∀ file ∈ files, isSound disk file = true) ∨ ∃ front file back error,
      files = front ++ file :: back ∧ (∀ file ∈ front, isSound disk file = true) ∧
        disk.templateOf file = .error error := by
  induction files with
  | nil => exact Or.inl (by simp)
  | cons file rest ih =>
    cases hfile : isSound disk file with
    | false =>
      obtain ⟨error, herror⟩ := exists_of_not_isOk hfile
      exact Or.inr ⟨[], file, rest, error, rfl, by simp, herror⟩
    | true =>
      rcases ih with hrest | ⟨front, broken, back, error, rfl, hfront, herror⟩
      · exact Or.inl (List.forall_mem_cons.mpr ⟨hfile, hrest⟩)
      · exact Or.inr ⟨file :: front, broken, back, error, rfl,
          List.forall_mem_cons.mpr ⟨hfile, hfront⟩, herror⟩

theorem keepAll_split {error : Error} (h : ∀ file ∈ front, isSound disk file = true)
    (herror : disk.templateOf file = .error error) (l : Loader) :
    l.keepAll disk (front ++ file :: back) = (.error error, (l.keepAll disk front).2) := by
  rw [keepAll_append h, keepAll_broken herror]

theorem new_preload_ok_iff {root : String} : Loader.new disk root true = .ok l ↔
    (⟨root, true, [], 0⟩ : Loader).refresh disk = (.ok (), l) := by
  unfold Loader.new
  dsimp only
  rcases (⟨root, true, [], 0⟩ : Loader).refresh disk with ⟨_ | _, k⟩ <;> simp

theorem new_preload_error_iff {root : String} {error : Error} :
    Loader.new disk root true = .error error ↔
      ((⟨root, true, [], 0⟩ : Loader).refresh disk).1 = .error error := by
  unfold Loader.new
  dsimp only
  rcases (⟨root, true, [], 0⟩ : Loader).refresh disk with ⟨_ | _, k⟩ <;> simp

/-- What holds of a loader and is not lost when a template is kept is not lost on the way. -/
theorem keepAll_preserves {P : Loader → Prop} (files : List (String × String))
    (hkeep : ∀ file ∈ files, ∀ l t, disk.templateOf file = .ok t → P l → P (l.keep file.1 t))
    (h : P l) : P (l.keepAll disk files).2 := by
  induction files generalizing l with
  | nil => exact h
  | cons file rest ih =>
    obtain ⟨hfile, hrest⟩ := List.forall_mem_cons.mp hkeep
    cases ht : disk.templateOf file with
    | ok t =>
      rw [keepAll_sound ht]
      exact ih hrest (hfile l t ht h)
    | error error =>
      rw [keepAll_broken ht]
      exact h

theorem keepAll_settings (l : Loader) (disk : Disk) (files : List (String × String)) :
    (l.keepAll disk files).2.root = l.root ∧ (l.keepAll disk files).2.preload = l.preload := by
  refine keepAll_preserves files (P := fun k => k.root = l.root ∧ k.preload = l.preload) ?_ ⟨rfl, rfl⟩
  intro file _ k t _ hk
  exact hk

theorem ordered_keepAll (h : NameTable.Ordered l.cache) (files : List (String × String)) :
    NameTable.Ordered (l.keepAll disk files).2.cache := by
  refine keepAll_preserves files (P := fun k => NameTable.Ordered k.cache) ?_ h
  intro file _ k t _ hk
  exact hk.insert file.1 _

/-- Each template that is kept has a number of its own, smaller than those to come. -/
structure Numbered (l : Loader) : Prop where
  below : ∀ {p i}, l.cache.lookup p = some i → i.identity < l.next
  own : ∀ {p q i k}, l.cache.lookup p = some i → l.cache.lookup q = some k →
    i.identity = k.identity → p = q

theorem Numbered.keep (h : l.Numbered) (path : String) (t : Template) : (l.keep path t).Numbered := by
  have hcases {p i} (hi : (l.keep path t).cache.lookup p = some i) :
      p = path ∧ i.identity = l.next ∨ l.cache.lookup p = some i ∧ i.identity < l.next := by
    rw [lookup_keep] at hi
    split at hi
    · exact Or.inl ⟨‹_›, (congrArg Instance.identity (Option.some.inj hi)).symm⟩
    · exact Or.inr ⟨hi, h.below hi⟩
  constructor
  · intro p i hi
    have hnext : (l.keep path t).next = l.next + 1 := rfl
    rcases hcases hi with ⟨-, hid⟩ | ⟨-, hlt⟩ <;> omega
  · intro p q i k hi hk hsame
    rcases hcases hi with ⟨rfl, hid⟩ | ⟨hold, hlt⟩ <;> rcases hcases hk with ⟨rfl, hid'⟩ | ⟨hold', hlt'⟩
    · rfl
    · omega
    · omega
    · exact h.own hold hold' hsame

theorem numbered_keepAll (h : l.Numbered) (disk : Disk) (files : List (String × String)) :
    (l.keepAll disk files).2.Numbered :=
  keepAll_preserves files (fun file _ _ t _ hk => hk.keep file.1 t) h

theorem numbered_new {root : String} {preload : Bool}
    (h : Loader.new disk root preload = .ok l) : l.Numbered := by
  have hempty (preload : Bool) : (⟨root, preload, [], 0⟩ : Loader).Numbered :=
    ⟨fun hi => (by cases hi), fun hi => (by cases hi)⟩
  cases preload with
  | false => exact Except.ok.inj h ▸ hempty false
  | true =>
    have hkept := numbered_keepAll (hempty true) disk (disk.templates root)
    have hrun := new_preload_ok_iff.mp h
    rw [refresh] at hrun
    rwa [hrun] at hkept

theorem lookup_keepAll_of_notMem (h : q ∉ files.map Prod.fst) (l : Loader) :
    (l.keepAll disk files).2.cache.lookup q = l.cache.lookup q := by
  refine keepAll_preserves files (P := fun k => k.cache.lookup q = l.cache.lookup q) ?_ rfl
  intro file hfile k t _ hk
  have hne : q ≠ file.1 := fun heq => h (List.mem_map.mpr ⟨file, hfile, heq.symm⟩)
  rw [lookup_keep, if_neg hne, hk]

/-- A path is kept if it was kept before or is one of those in front of the first broken file. -/
theorem isSome_lookup_keepAll_iff (l : Loader) (disk : Disk) (files : List (String × String))
    (q : String) : ((l.keepAll disk files).2.cache.lookup q).isSome ↔
      (l.cache.lookup q).isSome ∨ q ∈ (files.takeWhile (isSound disk)).map Prod.fst := by
  induction files generalizing l with
  | nil => simp [keepAll]
  | cons file rest ih =>
    cases hfile : isSound disk file with
    | false =>
      obtain ⟨error, herror⟩ := exists_of_not_isOk hfile
      rw [keepAll_broken herror, List.takeWhile_cons_of_neg (by simp [hfile])]
      simp
    | true =>
      obtain ⟨t, ht⟩ := exists_of_isOk hfile
      rw [keepAll_sound ht, ih, lookup_keep, List.takeWhile_cons_of_pos hfile, List.map_cons,
        List.mem_cons]
      by_cases hq : q = file.1 <;> simp [hq]

/-- A sound file that is the only one of its name is kept as it is read now. -/
theorem lookup_keepAll_of_mem (hsound : ∀ file ∈ files, isSound disk file = true)
    (hnodup : (files.map Prod.fst).Nodup) (hmem : file ∈ files) (l : Loader) :
    ∃ i, (l.keepAll disk files).2.cache.lookup file.1 = some i ∧
      disk.templateOf file = .ok i.template ∧ l.next ≤ i.identity := by
  induction files generalizing l with
  | nil => simp at hmem
  | cons first rest ih =>
    obtain ⟨hfirst, hrest⟩ := List.forall_mem_cons.mp hsound
    obtain ⟨t, ht⟩ := exists_of_isOk hfirst
    rw [List.map_cons, List.nodup_cons] at hnodup
    rw [keepAll_sound ht]
    rcases List.mem_cons.mp hmem with rfl | hmem
    · -- the files behind this one have other names
      refine ⟨⟨l.next, t⟩, ?_, ht, le_rfl⟩
      rw [lookup_keepAll_of_notMem hnodup.1, lookup_keep, if_pos rfl]
    · obtain ⟨i, hi, htemplate, hnew⟩ := ih hrest hnodup.2 hmem (l.keep first.1 t)
      exact ⟨i, hi, htemplate, Nat.le_of_succ_le hnew⟩

end Loader

end Stencil
