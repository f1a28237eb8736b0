import Stencil.Proofs.Storage.Tree

/-! # Files behind joined paths

A path that is joined onto a base leads from where the base does along the names that were joined,
as long as it is not too long and the directories on the way let paths through. -/
namespace Stencil

open Stencil.Path (IsName ofNames push segments join below)

namespace Entry

variable {here e : Entry} {front back : List (List Char)} {names : List String}

/-- Where segments lead that never go back does not depend on how the start was reached. -/
theorem walk_outer (h : ∀ s ∈ back, Path.component? s ≠ some .parent) (outer other : List Entry) :
    walk outer here back = walk other here back := by
  induction back generalizing here outer other with
  | nil => rfl
  | cons s rest ih =>
    obtain ⟨hs, hrest⟩ := List.forall_mem_cons.mp h
    cases here with
    | file | unreadable => rfl
    | folder access children =>
      simp only [walk, step]
      split
      · exact ih hrest _ _
      · split
        · rfl
        · split
          · split
            · exact ih hrest _ _
            · rfl
          · rename_i hparent
            exact absurd hparent hs
          · exact ih hrest _ _

theorem walk_append (h : ∀ s ∈ back, Path.component? s ≠ some .parent) (outer : List Entry) :
    walk outer here (front ++ back) = (walk outer here front).bind fun e => walk [] e back := by
  induction front generalizing outer here with
  | nil => exact walk_outer h outer []
  | cons s rest ih =>
    rw [List.cons_append, walk, walk]
    cases step outer here s with
    | error fault => rfl
    | ok next => exact ih next.1

/-- Names lead to what lies along them, unless a directory lets no path through. -/
theorem walk_names (hnames : ∀ name ∈ names, IsName name) (hfind : here.find? names = some e)
    (outer : List Entry) : walk outer here (names.map String.toList) =
      if here.entered names = true then .ok e else .error .denied := by
  induction names generalizing here outer with
  | nil => exact congrArg Except.ok (Option.some.inj hfind)
  | cons name rest ih =>
    obtain ⟨hname, hrest⟩ := List.forall_mem_cons.mp hnames
    cases here with
    | file | unreadable => simp [find?] at hfind
    | folder access children =>
      obtain ⟨child, hchild, hbelow⟩ := Option.bind_eq_some_iff.mp hfind
      have hne : name.toList ≠ [] := fun hnil =>
        hname.nonempty (String.toList_eq_nil_iff.mp hnil)
      cases haccess : access.entered with
      | false => simp [walk, step, entered, haccess, hne, bind, Except.bind]
      | true =>
        have hstep : step outer (folder access children) name.toList =
            .ok (folder access children :: outer, child) := by
          simp only [step, if_neg hne, haccess, Bool.true_eq_false, if_false, hname.component?,
            String.ofList_toList, hchild]
        rw [List.map_cons, walk, hstep, entered, haccess, hchild, Option.any_some, Bool.true_and]
        exact ih hrest hbelow _

/-- From well-named places a step leads to well-named ones. -/
theorem step_wellNamed {outer : List Entry} {segment : List Char} {place : List Entry × Entry}
    (houter : ∀ o ∈ outer, o.WellNamed) (hhere : here.WellNamed)
    (h : step outer here segment = .ok place) :
    (∀ o ∈ place.1, o.WellNamed) ∧ place.2.WellNamed := by
  cases hhere with
  | file | unreadable => cases h
  | @folder access children nodup names below =>
    have hhere : (folder access children).WellNamed := .folder nodup names below
    simp only [step] at h
    split at h
    · obtain rfl := Except.ok.inj h
      exact ⟨houter, hhere⟩
    · split at h
      · cases h
      · split at h
        · split at h
          · rename_i hlookup
            obtain rfl := Except.ok.inj h
            have hmem := (NameTable.mem_iff_lookup nodup).mpr hlookup
            exact ⟨List.forall_mem_cons.mpr ⟨hhere, houter⟩, below _ hmem⟩
          · cases h
        · split at h
          · obtain rfl := Except.ok.inj h
            obtain ⟨ho, hrest⟩ := List.forall_mem_cons.mp houter
            exact ⟨hrest, ho⟩
          · obtain rfl := Except.ok.inj h
            exact ⟨houter, hhere⟩
        · obtain rfl := Except.ok.inj h
          exact ⟨houter, hhere⟩

theorem walk_wellNamed {outer : List Entry} {segments : List (List Char)}
    (houter : ∀ o ∈ outer, o.WellNamed) (hhere : here.WellNamed)
    (h : walk outer here segments = .ok e) : e.WellNamed := by
  induction segments generalizing outer here with
  | nil => exact Except.ok.inj h ▸ hhere
  | cons s rest ih =>
    rw [walk] at h
    cases hstep : step outer here s with
    | error fault =>
      rw [hstep] at h
      cases h
    | ok place =>
      rw [hstep] at h
      obtain ⟨hplace, hentry⟩ := step_wellNamed houter hhere hstep
      exact ih hplace hentry h

theorem trail_wellNamed {outer : List Entry} {place : List Entry × Entry}
    (houter : ∀ o ∈ outer, o.WellNamed) (hhere : here.WellNamed)
    (h : here.trail outer names = some place) :
    (∀ o ∈ place.1, o.WellNamed) ∧ place.2.WellNamed := by
  induction names generalizing outer here with
  | nil =>
    obtain rfl := Option.some.inj h
    exact ⟨houter, hhere⟩
  | cons name rest ih =>
    cases hhere with
    | file | unreadable => cases h
    | @folder access children nodup names below =>
      obtain ⟨child, hchild, hrest⟩ := Option.bind_eq_some_iff.mp h
      have hmem := (NameTable.mem_iff_lookup nodup).mpr hchild
      exact ih (List.forall_mem_cons.mpr ⟨.folder nodup names below, houter⟩) (below _ hmem) hrest

end Entry

namespace Disk

variable {disk : Disk} {top e : Entry} {path root : String} {names : List String}

def WellNamed (disk : Disk) : Prop := disk.root.WellNamed

instance : DecidablePred WellNamed := fun disk => disk.root.decideWellNamed

theorem WellNamed.origin (hwell : disk.WellNamed) {text : List Char} {place : List Entry × Entry}
    (h : disk.origin text = .ok place) : (∀ o ∈ place.1, o.WellNamed) ∧ place.2.WellNamed := by
  unfold Disk.origin at h
  split at h
  · cases h
  · obtain rfl := Except.ok.inj h
    exact ⟨List.forall_mem_nil _, hwell⟩
  · split at h
    · rename_i htrail
      obtain rfl := Except.ok.inj h
      exact Entry.trail_wellNamed (List.forall_mem_nil _) hwell htrail
    · cases h

theorem WellNamed.resolve (hwell : disk.WellNamed) (h : disk.resolve path = .ok e) :
    e.WellNamed := by
  unfold Disk.resolve at h
  split at h
  · cases h
  · cases hplace : disk.origin path.toList with
    | error fault =>
      rw [hplace] at h
      cases h
    | ok place =>
      rw [hplace] at h
      obtain ⟨houter, hhere⟩ := hwell.origin hplace
      exact Entry.walk_wellNamed houter hhere h

theorem ne_empty_of_resolve (h : disk.resolve path = .ok e) : path ≠ "" := by
  rintro rfl
  cases h

theorem origin_append {text : List Char} (htext : text ≠ []) (more : List Char) :
    disk.origin (text ++ more) = disk.origin text := by
  obtain ⟨c, rest, rfl⟩ := List.exists_cons_of_ne_nil htext
  by_cases hc : c = '/'
  · subst hc
    rfl
  · simp [origin, hc]

theorem origin_push {text segment : List Char} (htext : text ≠ []) (hplain : '/' ∉ segment) :
    disk.origin (push text segment) = disk.origin text := by
  rw [Path.push_of_plain text hplain]
  split <;> exact origin_append htext _

/-- A slash at the end of the path of a directory leads nowhere else. -/
theorem resolve_slash {access : Access} {children : List (String × Entry)}
    (h : disk.resolve path = .ok (.folder access children))
    (hshort : path.utf8ByteSize + 1 ≤ longestPath) :
    disk.resolve (path ++ "/") = .ok (.folder access children) := by
  have htext : path.toList ≠ [] := fun hnil =>
    ne_empty_of_resolve h (String.toList_eq_nil_iff.mp hnil)
  have hsize : (path ++ "/").utf8ByteSize = path.utf8ByteSize + 1 := String.utf8ByteSize_append
  have hempty : ∀ s ∈ [([] : List Char)], Path.component? s ≠ some .parent := by decide
  have hsegments : segments (path.toList ++ ['/']) = segments path.toList ++ [[]] :=
    Path.segments_append_slash path.toList []
  have hslash : "/".toList = ['/'] := rfl
  rw [resolve, if_neg (by omega)] at h
  rw [resolve, if_neg (by omega), String.toList_append, hslash, origin_append htext, hsegments]
  cases hplace : disk.origin path.toList with
  | error fault =>
    rw [hplace] at h
    cases h
  | ok place =>
    obtain ⟨outer, here⟩ := place
    rw [hplace] at h
    have hwalk : here.walk outer (segments path.toList) = .ok (.folder access children) := h
    show here.walk outer _ = _
    rw [Entry.walk_append hempty, hwalk]
    rfl

theorem resolve_slashes {access : Access} {children : List (String × Entry)}
    (h : disk.resolve path = .ok (.folder access children)) (n : Nat)
    (hshort : path.utf8ByteSize + n ≤ longestPath) :
    disk.resolve (path ++ String.ofList (List.replicate n '/')) =
      .ok (.folder access children) := by
  induction n with
  | zero => rwa [List.replicate_zero, String.ofList_nil, String.append_empty]
  | succ n ih =>
    have hsplit : path ++ String.ofList (List.replicate (n + 1) '/') =
        path ++ String.ofList (List.replicate n '/') ++ "/" := by
      rw [List.replicate_succ', String.ofList_append, String.append_assoc]
    have hslash : '/'.utf8Size = 1 := rfl
    rw [hsplit]
    refine resolve_slash (ih (by omega)) ?_
    rw [String.utf8ByteSize_append, Path.utf8ByteSize_replicate, hslash]
    omega

/-- Joining a name goes one step further, also behind a slash at the end. -/
theorem resolve_join {name : String} (hpath : path ≠ "") (hname : IsName name)
    (hshort : (join path name).utf8ByteSize ≤ longestPath) :
    disk.resolve (join path name) =
      (disk.resolve path).bind fun e => e.walk [] [name.toList] := by
  have htext : path.toList ≠ [] := fun hnil => hpath (String.toList_eq_nil_iff.mp hnil)
  have hsize := (Path.utf8ByteSize_join path hname).1
  have hpathShort : path.utf8ByteSize ≤ longestPath := by omega
  have hback : ∀ s ∈ [name.toList], Path.component? s ≠ some .parent := by
    simp [hname.component?]
  rw [resolve, resolve, if_neg (Nat.not_lt.mpr hshort), if_neg (Nat.not_lt.mpr hpathShort),
    Path.toList_join, origin_push htext hname.plain]
  cases disk.origin path.toList with
  | error fault => rfl
  | ok place =>
    obtain ⟨outer, here⟩ := place
    show here.walk outer _ = (here.walk outer _).bind _
    rcases Path.segments_push htext hname.plain with hpush | ⟨front, hsegments, hpush⟩
    · rw [hpush, Entry.walk_append hback]
    · -- the empty segment behind the slash stays in a directory, and fails on a file as any does
      have hempty : ∀ s ∈ [([] : List Char)], Path.component? s ≠ some .parent := by decide
      rw [hpush, hsegments, Entry.walk_append hback, Entry.walk_append hempty]
      cases here.walk outer front with
      | error fault => rfl
      | ok place => cases place <;> rfl

theorem resolve_below (hpath : path ≠ "") (hnames : ∀ name ∈ names, IsName name)
    (hshort : (below path names).utf8ByteSize ≤ longestPath) :
    disk.resolve (below path names) =
      (disk.resolve path).bind fun e => e.walk [] (names.map String.toList) := by
  induction names generalizing path with
  | nil =>
    show disk.resolve path = _
    cases disk.resolve path <;> rfl
  | cons name rest ih =>
    obtain ⟨hname, hrest⟩ := List.forall_mem_cons.mp hnames
    have hback : ∀ s ∈ rest.map String.toList, Path.component? s ≠ some .parent := by
      intro s hs
      obtain ⟨n, hn, rfl⟩ := List.mem_map.mp hs
      simp [(hrest n hn).component?]
    have hjoin := Nat.le_trans (Path.utf8ByteSize_le_below (join path name) hrest) hshort
    rw [below, List.foldl_cons, ← below, ih (Path.join_ne_empty hpath hname) hrest hshort,
      resolve_join hpath hname hjoin]
    cases disk.resolve path with
    | error fault => rfl
    | ok here =>
      -- the name and the names behind it are walked in one go from there
      have hwalk : here.walk [] ([name.toList] ++ rest.map String.toList) = _ :=
        Entry.walk_append hback []
      exact hwalk.symm

/-- What is read along names is the text of what lies there, unless the path is too long or a
directory on the way lets no path through. -/
theorem read_below (hroot : disk.resolve root = .ok top) (hwell : top.WellNamed)
    (hfind : top.find? names = some e) : disk.read (below root names) =
      if longestPath < (below root names).utf8ByteSize then .error .tooLong
      else if top.entered names = true then e.text else .error .denied := by
  have hnames := hwell.names_of_find? hfind
  by_cases hlong : longestPath < (below root names).utf8ByteSize
  · rw [read, resolve, if_pos hlong, if_pos hlong]
    rfl
  · rw [if_neg hlong, read, resolve_below (ne_empty_of_resolve hroot) hnames (Nat.not_lt.mp hlong),
      hroot, Except.bind, Entry.walk_names hnames hfind]
    split <;> rfl

end Disk

end Stencil
