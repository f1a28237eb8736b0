import Stencil.Proofs.Storage.Keeping

/-! # A loader as a memo

Calls come one after another, and each of them finds the disk as it is by then. What a call to
get has answered is answered again until the path is added anew or the tree is read again, and
what it could not answer leaves no trace. -/
namespace Stencil

inductive Call where
  | get (path : String)
  | add (path : String) (t : Template)
  | refresh

/-- Whether a call leaves a path that is kept alone. -/
def Call.Spares (p : String) : Call → Prop
  | get _ => True
  | add path _ => path ≠ p
  | refresh => False

namespace Loader

/-- The loader after a call, whatever came of it. -/
def after (l : Loader) (disk : Disk) : Call → Loader
  | .get path => (l.get disk path).2
  | .add path t => l.add path t
  | .refresh => (l.refresh disk).2

/-- The loader after calls, each with the disk that it finds. -/
def afterAll (l : Loader) (calls : List (Disk × Call)) : Loader :=
  calls.foldl (fun l c => l.after c.1 c.2) l

variable {l : Loader} {disk : Disk} {p q : String} {i : Instance}

theorem get_of_lookup (h : l.cache.lookup p = some i) (disk : Disk) :
    l.get disk p = (.ok i, l) := by
  rw [get, h]

/-- What a loader that reads on demand does about a path that it does not keep. -/
theorem get_of_lazy (hnone : l.cache.lookup p = none) (hlazy : l.preload = false) (disk : Disk) :
    (∃ t, l.fetch disk p = .ok t ∧ l.get disk p = (.ok ⟨l.next, t⟩, l.keep p t)) ∨
    ∃ error, l.fetch disk p = .error error ∧ l.get disk p = (.error error, l) := by
  rcases MemoTable.getOrTryInsert_cases p
      ((l.fetch disk p).map fun t => (⟨l.next, t⟩ : Instance)) l.cache with
    ⟨i, hi, -⟩ | ⟨i, -, hmake, htable⟩ | ⟨e, -, hmake, htable⟩
  · rw [hnone] at hi
    cases hi
  · cases hfetch : l.fetch disk p with
    | ok t =>
      rw [hfetch] at hmake htable
      obtain rfl := Except.ok.inj hmake
      refine Or.inl ⟨t, rfl, ?_⟩
      simp only [get, hnone, hlazy, Bool.false_eq_true, if_false, hfetch, htable]
      rw [keep, hlazy]
      rfl
    | error e =>
      rw [hfetch] at hmake
      cases hmake
  · cases hfetch : l.fetch disk p with
    | ok t =>
      rw [hfetch] at hmake
      cases hmake
    | error error =>
      rw [hfetch] at hmake htable
      obtain rfl := Except.error.inj hmake
      refine Or.inr ⟨error, rfl, ?_⟩
      simp only [get, hnone, hlazy, Bool.false_eq_true, if_false, hfetch, htable]
      rw [← hlazy]
      rfl

/-- All that get can do. -/
theorem get_cases (l : Loader) (disk : Disk) (p : String) :
    (∃ i, l.cache.lookup p = some i ∧ l.get disk p = (.ok i, l)) ∨
    (l.cache.lookup p = none ∧ ∃ t, l.preload = false ∧ l.fetch disk p = .ok t ∧
      l.get disk p = (.ok ⟨l.next, t⟩, l.keep p t)) ∨
    ∃ error, l.cache.lookup p = none ∧ l.get disk p = (.error error, l) ∧
      (l.preload = true ∧ error = Template.notFound p ∨
        l.preload = false ∧ l.fetch disk p = .error error) := by
  cases hlookup : l.cache.lookup p with
  | some i => exact Or.inl ⟨i, rfl, get_of_lookup hlookup disk⟩
  | none =>
    right
    cases hpreload : l.preload with
    | true => exact Or.inr ⟨_, rfl, by simp [get, hlookup, hpreload], Or.inl ⟨rfl, rfl⟩⟩
    | false =>
      rcases get_of_lazy hlookup hpreload disk with ⟨t, hfetch, hget⟩ | ⟨e, hfetch, hget⟩
      · exact Or.inl ⟨rfl, t, rfl, hfetch, hget⟩
      · exact Or.inr ⟨e, rfl, hget, Or.inr ⟨rfl, hfetch⟩⟩

theorem lookup_of_get (h : (l.get disk p).1 = .ok i) :
    (l.get disk p).2.cache.lookup p = some i := by
  rcases get_cases l disk p with ⟨k, hk, hget⟩ | ⟨-, t, -, -, hget⟩ | ⟨e, -, hget, -⟩
  · rw [hget] at h ⊢
    rw [hk, Except.ok.inj h]
  · rw [hget] at h ⊢
    rw [lookup_keep, if_pos rfl, Except.ok.inj h]
  · rw [hget] at h
    cases h

theorem get_of_error {e : Error} (h : (l.get disk p).1 = .error e) : (l.get disk p).2 = l := by
  rcases get_cases l disk p with ⟨k, -, hget⟩ | ⟨-, t, -, -, hget⟩ | ⟨e, -, hget, -⟩
  · rw [hget]
  · rw [hget] at h
    cases h
  · rw [hget]

theorem lookup_get_of_ne (h : q ≠ p) (l : Loader) (disk : Disk) :
    (l.get disk p).2.cache.lookup q = l.cache.lookup q := by
  rcases get_cases l disk p with ⟨k, -, hget⟩ | ⟨-, t, -, -, hget⟩ | ⟨e, -, hget, -⟩
  · rw [hget]
  · rw [hget, lookup_keep, if_neg h]
  · rw [hget]

theorem get_of_preload (h : l.preload = true) (disk : Disk) (p : String) :
    (l.get disk p).2 = l := by
  rcases get_cases l disk p with ⟨k, -, hget⟩ | ⟨-, t, hlazy, -, hget⟩ | ⟨e, -, hget, -⟩
  · rw [hget]
  · rw [h] at hlazy
    cases hlazy
  · rw [hget]

theorem exists_get_iff_of_preload (h : l.preload = true) (disk : Disk) (p : String) :
    (∃ i, (l.get disk p).1 = .ok i) ↔ (l.cache.lookup p).isSome := by
  rcases get_cases l disk p with ⟨k, hk, hget⟩ | ⟨-, t, hlazy, -, hget⟩ | ⟨e, hnone, hget, -⟩
  · simp [hget, hk]
  · rw [h] at hlazy
    cases hlazy
  · simp [hget, hnone]

theorem get_settings (l : Loader) (disk : Disk) (p : String) :
    (l.get disk p).2.root = l.root ∧ (l.get disk p).2.preload = l.preload := by
  rcases get_cases l disk p with ⟨k, -, hget⟩ | ⟨-, t, -, -, hget⟩ | ⟨e, -, hget, -⟩ <;>
    rw [hget] <;> exact ⟨rfl, rfl⟩

/-- Whatever is kept stays in some form. -/
theorem isSome_lookup_after (h : (l.cache.lookup p).isSome) (disk : Disk) (c : Call) :
    ((l.after disk c).cache.lookup p).isSome := by
  cases c with
  | get path =>
    obtain ⟨i, hi⟩ := Option.isSome_iff_exists.mp h
    by_cases hp : p = path
    · subst hp
      rw [after, get_of_lookup hi]
      exact h
    · rw [after, lookup_get_of_ne hp]
      exact h
  | add path t =>
    rw [after, add, lookup_keep]
    split
    · rfl
    · exact h
  | refresh => exact (isSome_lookup_keepAll_iff l disk _ p).mpr (Or.inl h)

/-- An instance stays as long as its path is spared. -/
theorem lookup_after (h : l.cache.lookup p = some i) (disk : Disk) {c : Call}
    (hc : c.Spares p) : (l.after disk c).cache.lookup p = some i := by
  cases c with
  | get path =>
    by_cases hp : p = path
    · subst hp
      rw [after, get_of_lookup h]
      exact h
    · rw [after, lookup_get_of_ne hp, h]
  | add path t => rw [after, add, lookup_keep, if_neg (Ne.symm hc), h]
  | refresh => exact hc.elim

theorem after_settings (l : Loader) (disk : Disk) (c : Call) :
    (l.after disk c).root = l.root ∧ (l.after disk c).preload = l.preload := by
  cases c with
  | get path => exact get_settings l disk path
  | add path t => exact ⟨rfl, rfl⟩
  | refresh => exact keepAll_settings l disk _

theorem Numbered.after (h : l.Numbered) (disk : Disk) (c : Call) : (l.after disk c).Numbered := by
  cases c with
  | get path =>
    rcases get_cases l disk path with ⟨k, -, hget⟩ | ⟨-, t, -, -, hget⟩ | ⟨e, -, hget, -⟩
    · rw [Loader.after, hget]
      exact h
    · rw [Loader.after, hget]
      exact h.keep path t
    · rw [Loader.after, hget]
      exact h
  | add path t => exact h.keep path t
  | refresh => exact numbered_keepAll h disk _

theorem isSome_lookup_afterAll (h : (l.cache.lookup p).isSome) (calls : List (Disk × Call)) :
    ((l.afterAll calls).cache.lookup p).isSome := by
  induction calls generalizing l with
  | nil => exact h
  | cons c rest ih => exact ih (isSome_lookup_after h c.1 c.2)

theorem lookup_afterAll (h : l.cache.lookup p = some i) {calls : List (Disk × Call)}
    (hcalls : ∀ c ∈ calls, c.2.Spares p) : (l.afterAll calls).cache.lookup p = some i := by
  induction calls generalizing l with
  | nil => exact h
  | cons c rest ih =>
    obtain ⟨hc, hrest⟩ := List.forall_mem_cons.mp hcalls
    exact ih (lookup_after h c.1 hc) hrest

theorem afterAll_settings (l : Loader) (calls : List (Disk × Call)) :
    (l.afterAll calls).root = l.root ∧ (l.afterAll calls).preload = l.preload := by
  induction calls generalizing l with
  | nil => exact ⟨rfl, rfl⟩
  | cons c rest ih =>
    obtain ⟨hroot, hpreload⟩ := ih (l.after c.1 c.2)
    obtain ⟨hroot', hpreload'⟩ := after_settings l c.1 c.2
    exact ⟨hroot.trans hroot', hpreload.trans hpreload'⟩

theorem Numbered.afterAll (h : l.Numbered) (calls : List (Disk × Call)) :
    (l.afterAll calls).Numbered := by
  induction calls generalizing l with
  | nil => exact h
  | cons c rest ih => exact ih (h.after c.1 c.2)

/-- Whether a loader can come about: by calls, one after another, of one that was new. -/
def Reachable (l : Loader) : Prop :=
  ∃ disk root preload start calls, Loader.new disk root preload = .ok start ∧
    l = start.afterAll calls

theorem Reachable.numbered (h : l.Reachable) : l.Numbered := by
  obtain ⟨disk, root, preload, start, calls, hnew, rfl⟩ := h
  exact (numbered_new hnew).afterAll calls

/-- A lazy loader finds a template that is there, whether it is kept by then or not. -/
theorem exists_get_of_fetch {t : Template} (hlazy : l.preload = false)
    (hfetch : l.fetch disk p = .ok t) :
    ∃ k, (l.get disk p).1 = .ok k ∧ (l.cache.lookup p = none → k.template = t) := by
  rcases get_cases l disk p with ⟨k, hk, hget⟩ | ⟨-, u, -, hu, hget⟩ | ⟨e, -, -, hwhy⟩
  · rw [hget, hk]
    exact ⟨k, rfl, fun hnone => by cases hnone⟩
  · rw [hget]
    exact ⟨_, rfl, fun _ => Except.ok.inj (hu.symm.trans hfetch)⟩
  · rcases hwhy with ⟨hpreload, -⟩ | ⟨-, hbroken⟩
    · rw [hlazy] at hpreload
      cases hpreload
    · rw [hfetch] at hbroken
      cases hbroken

theorem fetch_of_read {full source : String} {t : Template}
    (hjoin : Path.safeJoin? l.root p = some full) (hread : disk.read full = .ok source)
    (htemplate : Template.readNamed p source = .ok t) : l.fetch disk p = .ok t := by
  rw [fetch, hjoin]
  simp only [hread]
  exact htemplate

/-- What was answered once is answered in any later state, and by the same instance until the path
is added anew or the tree is read again. What was refused changes nothing, so that a lazy loader
finds the file as soon as it is there. No other path is touched, and a loader that has read the
tree beforehand is not touched at all. -/
theorem get_answers_again (l : Loader) (disk : Disk) (p : String) :
    (∀ i, (l.get disk p).1 = .ok i → ∀ calls later,
      (∃ k, (((l.get disk p).2.afterAll calls).get later p).1 = .ok k) ∧
      ((∀ c ∈ calls, c.2.Spares p) →
        (((l.get disk p).2.afterAll calls).get later p).1 = .ok i)) ∧
    (∀ e, (l.get disk p).1 = .error e → (l.get disk p).2 = l ∧
      (l.preload = false → ∀ calls later full source t, Path.safeJoin? l.root p = some full →
        later.read full = .ok source → Template.readNamed p source = .ok t →
        ∃ k, (((l.get disk p).2.afterAll calls).get later p).1 = .ok k ∧
          (((l.get disk p).2.afterAll calls).cache.lookup p = none → k.template = t))) ∧
    (∀ q, q ≠ p → (l.get disk p).2.cache.lookup q = l.cache.lookup q) ∧
    (l.preload = true → (l.get disk p).2 = l) := by
  refine ⟨?_, ?_, fun q hq => lookup_get_of_ne hq l disk, fun h => get_of_preload h disk p⟩
  · intro i hi calls later
    have hkept := lookup_of_get hi
    constructor
    · have hsome : ((l.get disk p).2.cache.lookup p).isSome := by rw [hkept]; rfl
      obtain ⟨k, hk⟩ := Option.isSome_iff_exists.mp (isSome_lookup_afterAll hsome calls)
      exact ⟨k, by rw [get_of_lookup hk]⟩
    · intro hcalls
      rw [get_of_lookup (lookup_afterAll hkept hcalls)]
  · intro e he
    have hsame := get_of_error he
    refine ⟨hsame, fun hlazy calls later full source t hjoin hread ht => ?_⟩
    rw [hsame]
    obtain ⟨hroot, hpreload⟩ := afterAll_settings l calls
    exact exists_get_of_fetch (hpreload.trans hlazy)
      (fetch_of_read (hroot.symm ▸ hjoin) hread ht)

/-- A template outlives its file, and another one is found once its file is there. -/
theorem get_answers_again_lazily :
    let disk : Disk := ⟨.directory [("t", .directory [("a.mnd", .file [120])])], []⟩
    let broken : Disk := ⟨.directory [("t", .directory [("b.mnd", .file [123, 123])])], []⟩
    let l : Loader := ⟨"t", false, [], 0⟩
    let calls : List (Disk × Call) := [(broken, .get "b.mnd"), (broken, .add "c" ⟨none, "", []⟩)]
    ∃ i, (l.get disk "a.mnd").1 = .ok i ∧ (∀ c ∈ calls, c.2.Spares "a.mnd") ∧
      (((l.get disk "a.mnd").2.afterAll calls).get broken "a.mnd").1 = .ok i ∧
      (∃ k, (((l.get disk "a.mnd").2.afterAll [(broken, .refresh)]).get broken "a.mnd").1 = .ok k) ∧
      (∃ e, (l.get broken "a.mnd").1 = .error e ∧ (l.get broken "a.mnd").2 = l ∧
        ∃ k, (((l.get broken "a.mnd").2.afterAll calls).get disk "a.mnd").1 = .ok k) ∧
      (l.get disk "a.mnd").2.cache.lookup "b.mnd" = l.cache.lookup "b.mnd" ∧
      ((⟨"t", true, [], 0⟩ : Loader).get disk "a.mnd").2 = ⟨"t", true, [], 0⟩ := by
  intro disk broken l calls
  have hread : disk.read "t/a.mnd" = .ok "x" := by decide +kernel
  have hjoin : Path.safeJoin? l.root "a.mnd" = some "t/a.mnd" := by decide +kernel
  obtain ⟨t, ht⟩ : ∃ t, Template.readNamed "a.mnd" "x" = .ok t := ⟨_, rfl⟩
  obtain ⟨i, hi, -⟩ := exists_get_of_fetch rfl (fetch_of_read hjoin hread ht)
  have hfails : (l.get broken "a.mnd").1.isOk = false := by decide +kernel
  obtain ⟨e, he⟩ := exists_of_not_isOk hfails
  have hcalls : ∀ c ∈ calls, c.2.Spares "a.mnd" := by simp [calls, Call.Spares]
  obtain ⟨hagain, -, hother, -⟩ := get_answers_again l disk "a.mnd"
  obtain ⟨hsame, hfound⟩ := (get_answers_again l broken "a.mnd").2.1 e he
  obtain ⟨k, hk, -⟩ := hfound rfl calls disk _ _ t hjoin hread ht
  exact ⟨i, hi, hcalls, (hagain i hi calls broken).2 hcalls, (hagain i hi _ broken).1,
    ⟨e, he, hsame, k, hk⟩, hother "b.mnd" (by decide),
    (get_answers_again ⟨"t", true, [], 0⟩ disk "a.mnd").2.2.2 rfl⟩

end Loader

end Stencil
