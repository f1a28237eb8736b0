import Stencil.Proofs.Storage.Segments

/-! # Joined paths stay below their base

A template path that is joined onto a base adds a step for each of its names, and changes nothing in
front of them: no segment can stand for the root of all files, for the directory above or for the
place itself, and empty segments are no steps.
-/
namespace Stencil.Path

theorem segments_eq_splitOn (text : List Char) : segments text = text.splitOn '/' := by
  induction text with
  | nil => rfl
  | cons c rest ih =>
    rw [List.splitOn_cons_eq_if_modifyHead, segments, ih]
    by_cases hc : c = '/'
    · rw [if_pos hc, if_pos (beq_iff_eq.mpr hc)]
    · rw [if_neg hc, if_neg (by simpa using hc)]
      cases h : rest.splitOn '/' with
      | nil => exact absurd h (List.splitOn_ne_nil '/' rest)
      | cons s more => rfl

theorem segments_eq_singleton_nil {path : List Char} (h : segments path = [[]]) : path = [] := by
  rw [segments_eq_splitOn] at h
  have hpath : ['/'].intercalate (path.splitOn '/') = path := List.intercalate_splitOn '/'
  rw [h] at hpath
  exact hpath.symm

theorem slash_notMem_of_mem_segments {text s : List Char} (h : s ∈ segments text) : '/' ∉ s := by
  induction text generalizing s with
  | nil => simp_all [segments]
  | cons c rest ih =>
    by_cases hc : c = '/'
    · rw [segments, if_pos hc] at h
      rcases List.mem_cons.mp h with rfl | h
      · exact List.not_mem_nil
      · exact ih h
    · rw [segments, if_neg hc] at h
      cases hs : segments rest with
      | nil => exact absurd hs (segments_ne_nil rest)
      | cons first more =>
        simp only [hs] at h ih
        rcases List.mem_cons.mp h with rfl | h
        · exact List.not_mem_cons_of_ne_of_not_mem (Ne.symm hc) (ih List.mem_cons_self)
        · exact ih (List.mem_cons_of_mem first h)

theorem isRefused_iff {s : List Char} : isRefused s = true ↔ s.head? = some '.' ∨ '\\' ∈ s := by
  simp [isRefused]

/-- Where a path starts, if it says so. -/
def start (path : List Char) : List Component :=
  if path.head? = some '/' then [.root]
  else if (segments path).head? = some ['.'] then [.current]
  else []

theorem components_eq (path : List Char) :
    components path = start path ++ (segments path).filterMap component? := by
  cases path with
  | nil => rfl
  | cons c rest =>
    by_cases hc : c = '/'
    · subst hc
      cases hs : segments rest with
      | nil => exact absurd hs (segments_ne_nil rest)
      | cons s more => simp [components, start, segments, hs]
    · obtain ⟨s, more, hs⟩ : ∃ s more, segments (c :: rest) = (c :: s) :: more := by
        cases hs : segments rest <;> simp [segments, hc, hs]
      by_cases hdot : c :: s = ['.']
      · simp [components, start, hs, hdot, hc]
      · simp only [components, start, hs, List.head?_cons, Option.some.injEq, hdot, hc, if_false]
        split <;> simp_all

/-- Behind something a segment does not change where the path starts. -/
theorem start_push {path segment : List Char} (hpath : path ≠ []) (hplain : '/' ∉ segment) :
    start (push path segment) = start path := by
  have hhead : (segments (push path segment)).head? = (segments path).head? := by
    rcases segments_push hpath hplain with h | ⟨front, hfront, h⟩
    · rw [h, List.head?_append, List.head?_eq_some_head (segments_ne_nil path)]
      rfl
    · have hne : front ≠ [] := by
        rintro rfl
        exact hpath (segments_eq_singleton_nil hfront)
      rw [h, hfront, List.head?_append, List.head?_append, List.head?_eq_some_head hne]
      rfl
  rw [start, start, head?_push hpath hplain, hhead]

theorem components_push {path segment : List Char} (hpath : path ≠ []) (hplain : '/' ∉ segment) :
    components (push path segment) = components path ++ [segment].filterMap component? := by
  have hsteps : (segments (push path segment)).filterMap component? =
      (segments path).filterMap component? ++ [segment].filterMap component? := by
    rcases segments_push hpath hplain with h | ⟨front, hfront, h⟩
    · rw [h, List.filterMap_append]
    · -- the empty segment that is filled was no step
      have hempty : [[]].filterMap component? = [] := rfl
      rw [h, hfront, List.filterMap_append, List.filterMap_append, hempty, List.append_nil]
  rw [components_eq, components_eq path, start_push hpath hplain, hsteps, List.append_assoc]

theorem ne_dots_of_accepted {segment : List Char} (h : isRefused segment = false) :
    segment ≠ ['.'] ∧ segment ≠ ['.', '.'] := by
  constructor
  · rintro rfl
    cases h
  · rintro rfl
    cases h

theorem component?_of_accepted {segment : List Char} (h : isRefused segment = false) :
    [segment].filterMap component? = ([segment].filter (· ≠ [])).map .normal := by
  obtain ⟨hdot, hdots⟩ := ne_dots_of_accepted h
  by_cases hempty : segment = []
  · simp [component?, hempty]
  · simp [component?, hempty, hdot, hdots]

/-- A segment that is not refused is a step by its name, or none at all. -/
theorem components_push_accepted (path : List Char) {segment : List Char} (hplain : '/' ∉ segment)
    (h : isRefused segment = false) :
    components (push path segment) = components path ++ ([segment].filter (· ≠ [])).map .normal := by
  rw [← component?_of_accepted h]
  by_cases hpath : path = []
  · -- with nothing in front the segment is the path, and no dot says where it starts
    have hslash : segment.head? ≠ some '/' := fun h => hplain (List.mem_of_mem_head? h)
    have hdot : [segment].head? ≠ some ['.'] := by simpa using (ne_dots_of_accepted h).1
    have hpush : push path segment = segment := by
      rw [push_of_plain path hplain, if_pos (Or.inl hpath), hpath, List.nil_append]
    have hstart : start segment = [] := by
      rw [start, if_neg hslash, segments_of_plain hplain, if_neg hdot]
    rw [hpush, components_eq segment, hstart, segments_of_plain hplain, hpath]
    rfl
  · exact components_push hpath hplain

theorem components_foldl_push (base : List Char) {parts : List (List Char)}
    (h : ∀ s ∈ parts, '/' ∉ s ∧ isRefused s = false) :
    components (parts.foldl push base) =
      components base ++ (parts.filter (· ≠ [])).map .normal := by
  induction parts generalizing base with
  | nil => simp
  | cons s rest ih =>
    obtain ⟨⟨hplain, hsafe⟩, hrest⟩ := List.forall_mem_cons.mp h
    rw [List.foldl_cons, ih _ hrest, components_push_accepted base hplain hsafe, List.append_assoc,
      ← List.map_append, ← List.filter_append, List.singleton_append]

theorem prefix_foldl_push (base : List Char) {parts : List (List Char)}
    (h : ∀ s ∈ parts, '/' ∉ s) : base <+: parts.foldl push base := by
  induction parts generalizing base with
  | nil => exact List.prefix_rfl
  | cons s rest ih =>
    obtain ⟨hs, hrest⟩ := List.forall_mem_cons.mp h
    have hpush : base <+: push base s := by
      rw [push_of_plain base hs]
      split <;> exact List.prefix_append base _
    exact hpush.trans (ih _ hrest)

/-- The names in a template path: what stands between its slashes, where anything does. -/
def names (template : String) : List (List Char) :=
  (template.toList.splitOn '/').filter (· ≠ [])

theorem safeJoin?_eq_none_iff {base template : String} :
    safeJoin? base template = none ↔ ∃ s ∈ segments template.toList, isRefused s = true := by
  rw [safeJoin?, ← List.any_eq_true]
  simp

theorem accepted_of_safeJoin? {base template path : String}
    (h : safeJoin? base template = some path) :
    ∀ s ∈ segments template.toList, '/' ∉ s ∧ isRefused s = false := by
  intro s hs
  refine ⟨slash_notMem_of_mem_segments hs, Bool.eq_false_iff.mpr fun hrefused => ?_⟩
  rw [safeJoin?_eq_none_iff.mpr ⟨s, hs, hrefused⟩] at h
  cases h

theorem toList_of_safeJoin? {base template path : String}
    (h : safeJoin? base template = some path) :
    path.toList = (segments template.toList).foldl push base.toList := by
  rw [safeJoin?] at h
  split at h
  · cases h
  · rw [← Option.some.inj h, String.toList_ofList]

theorem components_of_safeJoin? {base template path : String}
    (h : safeJoin? base template = some path) :
    components path.toList = components base.toList ++ (names template).map .normal := by
  rw [toList_of_safeJoin? h, components_foldl_push base.toList (accepted_of_safeJoin? h), names,
    segments_eq_splitOn]

theorem isName_of_safeJoin? {base template path : String}
    (h : safeJoin? base template = some path) {name : List Char} (hname : name ∈ names template) :
    IsName (String.ofList name) := by
  obtain ⟨hmem, hne⟩ := List.mem_filter.mp hname
  rw [← segments_eq_splitOn] at hmem
  obtain ⟨hplain, hsafe⟩ := accepted_of_safeJoin? h name hmem
  obtain ⟨hdot, hdots⟩ := ne_dots_of_accepted hsafe
  have hnot {text : String} (htext : name ≠ text.toList) : String.ofList name ≠ text := by
    rintro rfl
    exact htext String.toList_ofList.symm
  exact ⟨hnot (by simpa using hne), by rwa [String.toList_ofList], hnot hdot, hnot hdots⟩

/-- A template path is refused just if one of its segments begins with a dot or has a backslash.
Joined onto any base it otherwise leads from there along its names, none of which is a step of
another kind: the base is not replaced, and whatever slashes stand in front, behind or in a row,
paths with the same names lead to the same place and others do not. -/
theorem safeJoin?_stays_below (base template : String) :
    (safeJoin? base template = none ↔
      ∃ s ∈ template.toList.splitOn '/', s.head? = some '.' ∨ '\\' ∈ s) ∧
    ∀ path, safeJoin? base template = some path →
      components path.toList = components base.toList ++ (names template).map .normal ∧
      base.toList <+: path.toList ∧
      (∀ name ∈ names template, IsName (String.ofList name)) ∧
      ∀ other path', safeJoin? base other = some path' →
        (components path.toList = components path'.toList ↔ names template = names other) := by
  refine ⟨?_, fun path h => ⟨components_of_safeJoin? h, ?_, fun name => isName_of_safeJoin? h, ?_⟩⟩
  · simp only [safeJoin?_eq_none_iff, isRefused_iff, segments_eq_splitOn]
  · rw [toList_of_safeJoin? h]
    exact prefix_foldl_push base.toList fun s hs => (accepted_of_safeJoin? h s hs).1
  · intro other path' h'
    rw [components_of_safeJoin? h, components_of_safeJoin? h', List.append_cancel_left_eq,
      List.map_inj_right fun _ _ => Component.normal.inj]

/-- Slashes in front do not lead to the root of all files, and slashes in a row lead nowhere. -/
theorem safeJoin?_stays_below_slashes :
    safeJoin? "/srv/" "//a//b.mnd/" = some "/srv/a/b.mnd/" ∧
    safeJoin? "/srv/" "a/b.mnd" = some "/srv/a/b.mnd" ∧
    components "/srv/a/b.mnd/".toList = components "/srv/a/b.mnd".toList := by
  have hslashes : safeJoin? "/srv/" "//a//b.mnd/" = some "/srv/a/b.mnd/" := by decide +kernel
  have hplain : safeJoin? "/srv/" "a/b.mnd" = some "/srv/a/b.mnd" := by decide +kernel
  have hnames : names "//a//b.mnd/" = names "a/b.mnd" := by decide +kernel
  obtain ⟨-, -, -, hsame⟩ := (safeJoin?_stays_below "/srv/" "//a//b.mnd/").2 _ hslashes
  exact ⟨hslashes, hplain, (hsame _ _ hplain).mpr hnames⟩

end Stencil.Path
