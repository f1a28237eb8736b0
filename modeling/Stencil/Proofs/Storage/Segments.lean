import Stencil.Storage.Path

/-! # The segments of a path

Slashes cut a path, so what is put together with slashes is cut into the same parts again, and a
path that is joined onto a base gains one segment for each of its own. Names lead from one path to
another one, each behind a slash. -/
namespace Stencil.Path

theorem segments_ne_nil (text : List Char) : segments text ≠ [] := by
  cases text with
  | nil => simp [segments]
  | cons c rest =>
    unfold segments
    split
    · simp
    · split <;> simp

theorem segments_of_plain {text : List Char} (h : '/' ∉ text) : segments text = [text] := by
  induction text with
  | nil => rfl
  | cons c rest ih =>
    rw [List.mem_cons, not_or] at h
    simp [segments, Ne.symm h.1, ih h.2]

theorem segments_append_slash (front back : List Char) :
    segments (front ++ '/' :: back) = segments front ++ segments back := by
  induction front with
  | nil => rfl
  | cons c rest ih =>
    by_cases hc : c = '/'
    · simp [segments, hc, ih]
    · cases hs : segments rest with
      | nil => exact absurd hs (segments_ne_nil rest)
      | cons s more => simp [segments, hc, ih, hs]

/-- A segment is no path from the root, so pushing one keeps what was there. -/
theorem push_of_plain (path : List Char) {segment : List Char} (hplain : '/' ∉ segment) :
    push path segment =
      if path = [] ∨ path.getLast? = some '/' then path ++ segment else path ++ '/' :: segment := by
  have hhead : segment.head? ≠ some '/' := fun h => hplain (List.mem_of_mem_head? h)
  rw [push, if_neg hhead]

/-- Pushing adds a segment, or fills the empty one behind a slash at the end. -/
theorem segments_push {path segment : List Char} (hpath : path ≠ []) (hplain : '/' ∉ segment) :
    segments (push path segment) = segments path ++ [segment] ∨
      ∃ front, segments path = front ++ [[]] ∧
        segments (push path segment) = front ++ [segment] := by
  rw [push_of_plain path hplain]
  by_cases hend : path.getLast? = some '/'
  · right
    obtain ⟨front, rfl⟩ := List.getLast?_eq_some_iff.mp hend
    refine ⟨segments front, segments_append_slash front [], ?_⟩
    rw [if_pos (Or.inr hend), List.append_assoc, List.singleton_append,
      segments_append_slash, segments_of_plain hplain]
  · left
    rw [if_neg (not_or.mpr ⟨hpath, hend⟩), segments_append_slash, segments_of_plain hplain]

theorem push_ne_nil {path segment : List Char} (hpath : path ≠ []) (hplain : '/' ∉ segment) :
    push path segment ≠ [] := by
  rw [push_of_plain path hplain]
  split <;> simp [hpath]

theorem head?_push {path segment : List Char} (hpath : path ≠ []) (hplain : '/' ∉ segment) :
    (push path segment).head? = path.head? := by
  obtain ⟨c, rest, rfl⟩ := List.exists_cons_of_ne_nil hpath
  rw [push_of_plain _ hplain]
  split <;> rfl

/-- The path along names. -/
def ofNames (names : List String) : String := "/".intercalate names

/-- The path along names from a path. -/
def below (path : String) (names : List String) : String := names.foldl join path

/-- What can name an entry of a directory. -/
structure IsName (name : String) : Prop where
  nonempty : name ≠ ""
  plain : '/' ∉ name.toList
  current : name ≠ "."
  parent : name ≠ ".."

instance (name : String) : Decidable (IsName name) :=
  decidable_of_iff (name ≠ "" ∧ '/' ∉ name.toList ∧ name ≠ "." ∧ name ≠ "..")
    ⟨fun ⟨hempty, hplain, hdot, hdots⟩ => ⟨hempty, hplain, hdot, hdots⟩,
      fun h => ⟨h.nonempty, h.plain, h.current, h.parent⟩⟩

theorem IsName.component? {name : String} (h : IsName name) :
    component? name.toList = some (.normal name.toList) := by
  have hne (text : String) (hname : name ≠ text) : name.toList ≠ text.toList :=
    fun heq => hname (String.toList_inj.mp heq)
  have hempty : name.toList ≠ [] := hne "" h.nonempty
  have hdot : name.toList ≠ ['.'] := hne "." h.current
  have hdots : name.toList ≠ ['.', '.'] := hne ".." h.parent
  rw [Path.component?, if_neg (not_or.mpr ⟨hempty, hdot⟩), if_neg hdots]

theorem segments_ofNames {names : List String} (hne : names ≠ [])
    (h : ∀ name ∈ names, '/' ∉ name.toList) :
    segments (ofNames names).toList = names.map String.toList := by
  induction names with
  | nil => exact absurd rfl hne
  | cons name rest ih =>
    have hname := h name List.mem_cons_self
    cases rest with
    | nil => simpa [ofNames] using segments_of_plain hname
    | cons next more =>
      have hrest := ih (List.cons_ne_nil next more) fun n hn => h n (List.mem_cons_of_mem name hn)
      have hcons : (ofNames (name :: next :: more)).toList =
          name.toList ++ '/' :: (ofNames (next :: more)).toList := by
        rw [ofNames, String.intercalate_cons_cons, String.toList_append, String.toList_append,
          List.append_assoc]
        rfl
      rw [hcons, segments_append_slash, segments_of_plain hname, hrest]
      rfl

/-- Whether a name ends as the names of templates do. -/
def IsTemplateName (name : String) : Prop :=
  ∃ e ∈ templateExtensions, nameExtension? name.toList = some e

theorem ofNames_ne_empty {names : List String} (hne : names ≠ []) (h : ∀ name ∈ names, IsName name) :
    ofNames names ≠ "" := by
  intro hempty
  have hsegments := segments_ofNames hne fun n hn => (h n hn).plain
  rw [hempty] at hsegments
  obtain ⟨name, rest, rfl⟩ := List.exists_cons_of_ne_nil hne
  have hname : [] = name.toList := (List.cons.inj hsegments).1
  exact (h name List.mem_cons_self).nonempty (String.toList_eq_nil_iff.mp hname.symm)

/-- Different names lead along different paths. -/
theorem ofNames_inj {names others : List String} (h : ∀ name ∈ names, IsName name)
    (ho : ∀ name ∈ others, IsName name) (heq : ofNames names = ofNames others) : names = others := by
  by_cases hne : names = []
  · subst hne
    cases others with
    | nil => rfl
    | cons name rest => exact absurd heq.symm (ofNames_ne_empty (List.cons_ne_nil name rest) ho)
  · have hother : others ≠ [] := by
      rintro rfl
      exact ofNames_ne_empty hne h heq
    have hmap := congrArg (fun path => segments path.toList) heq
    simp only [segments_ofNames hne fun n hn => (h n hn).plain,
      segments_ofNames hother fun n hn => (ho n hn).plain] at hmap
    exact (List.map_inj_right fun _ _ => String.toList_inj.mp).mp hmap

theorem toList_join (path more : String) : (join path more).toList = push path.toList more.toList :=
  String.toList_ofList

theorem toList_below (path : String) (names : List String) :
    (below path names).toList = (names.map String.toList).foldl push path.toList := by
  induction names generalizing path with
  | nil => rfl
  | cons name rest ih => rw [below, List.foldl_cons, ← below, ih, toList_join, List.map_cons,
      List.foldl_cons]

/-- A name is written behind what is there, with at most a slash between. -/
theorem join_cases (path : String) {name : String} (h : IsName name) :
    join path name = path ++ name ∨ join path name = path ++ "/" ++ name := by
  have hpush := push_of_plain path.toList h.plain
  split at hpush
  · left
    rw [join, hpush, ← String.toList_append, String.ofList_toList]
  · right
    rw [← String.toList_inj, toList_join, hpush, String.toList_append, String.toList_append,
      List.append_assoc]
    rfl

theorem utf8ByteSize_join (path : String) {name : String} (h : IsName name) :
    path.utf8ByteSize + name.utf8ByteSize ≤ (join path name).utf8ByteSize ∧
      (join path name).utf8ByteSize ≤ path.utf8ByteSize + name.utf8ByteSize + 1 := by
  have hslash : "/".utf8ByteSize = 1 := rfl
  rcases join_cases path h with hjoin | hjoin <;>
    rw [hjoin] <;> simp only [String.utf8ByteSize_append, hslash] <;> omega

theorem utf8ByteSize_replicate (n : Nat) (c : Char) :
    (String.ofList (List.replicate n c)).utf8ByteSize = n * c.utf8Size := by
  induction n with
  | zero => rw [List.replicate_zero, String.ofList_nil, String.utf8ByteSize_empty, Nat.zero_mul]
  | succ n ih =>
    rw [List.replicate_succ, String.ofList_cons, String.utf8ByteSize_append, ih,
      String.utf8ByteSize_singleton, Nat.succ_mul, Nat.add_comm]

theorem utf8ByteSize_le_below (path : String) {names : List String}
    (h : ∀ name ∈ names, IsName name) : path.utf8ByteSize ≤ (below path names).utf8ByteSize := by
  induction names generalizing path with
  | nil => exact Nat.le_refl _
  | cons name rest ih =>
    obtain ⟨hname, hrest⟩ := List.forall_mem_cons.mp h
    have hjoin := (utf8ByteSize_join path hname).1
    exact Nat.le_trans (by omega) (ih (join path name) hrest)

theorem join_ne_empty {path name : String} (hpath : path ≠ "") (h : IsName name) :
    join path name ≠ "" := by
  intro hempty
  have hpush := push_ne_nil (fun hnil => hpath (String.toList_eq_nil_iff.mp hnil)) h.plain
  rw [← toList_join, hempty] at hpush
  exact hpush rfl

/-- A path without refused segments is joined name by name. -/
theorem safeJoin?_ofNames {names : List String} (hne : names ≠ [])
    (h : ∀ name ∈ names, '/' ∉ name.toList)
    (hsafe : ∀ segment ∈ segments (ofNames names).toList, isRefused segment = false)
    (base : String) : safeJoin? base (ofNames names) = some (below base names) := by
  have hany : (segments (ofNames names).toList).any isRefused = false := by
    rw [List.any_eq_false]
    intro segment hsegment
    simp [hsafe segment hsegment]
  rw [safeJoin?, hany, if_neg Bool.false_ne_true, segments_ofNames hne h, ← toList_below,
    String.ofList_toList]

end Stencil.Path
