import Stencil.Format.Sprintf

/-! # Formats one behind the other

A format that can be used up ends outside of a directive, and so what stands behind it is read as if it
stood alone: formats and their values may be put together. Each directive takes one value, so the format
alone decides how many there must be.
-/
namespace Stencil

namespace FormatPiece

/-- Reading is behind the percent sign of a directive. -/
def Mode.IsInside : Mode → Prop
  | .text => False
  | .flags _ | .width _ | .precision _ => True

theorem read_inside_nil {m : Mode} (hm : m.IsInside) : read m [] = [.incomplete] := by
  cases m with
  | text => cases hm
  | flags | width | precision => rfl

/-- A character goes on with the directive, if it is no percent sign, or else it is the verb. -/
theorem read_inside_cons {m : Mode} (hm : m.IsInside) (c : Char) :
    (c ≠ '%' ∧ ∃ m' : Mode, m'.IsInside ∧ ∀ rest, read m (c :: rest) = read m' rest) ∨
      ∃ l, ∀ rest, read m (c :: rest) = .directive l c :: read .text rest := by
  have hdigit (h : isDigit c = true) : c ≠ '%' := by
    rintro rfl
    cases h
  have hpoint (h : c = '.') : c ≠ '%' := by
    rintro rfl
    cases h
  cases m with
  | text => cases hm
  | flags l =>
    cases hflag : l.flag? c with
    | some l' =>
      have hne : c ≠ '%' := by
        rintro rfl
        cases hflag
      exact Or.inl ⟨hne, .flags l', trivial, fun rest => by rw [read, hflag]⟩
    | none =>
      by_cases hd : isDigit c = true
      · exact Or.inl ⟨hdigit hd, .width (l.widthDigit c), trivial, fun rest => by
          rw [read, hflag]
          exact if_pos hd⟩
      · by_cases hp : c = '.'
        · exact Or.inl ⟨hpoint hp, .precision l.point, trivial, fun rest => by
            rw [read, hflag]
            exact (if_neg hd).trans (if_pos hp)⟩
        · exact Or.inr ⟨l, fun rest => by
            rw [read, hflag]
            exact (if_neg hd).trans (if_neg hp)⟩
  | width l =>
    by_cases hd : isDigit c = true
    · exact Or.inl ⟨hdigit hd, .width (l.widthDigit c), trivial, fun rest => by
        rw [read, if_pos hd]⟩
    · by_cases hp : c = '.'
      · exact Or.inl ⟨hpoint hp, .precision l.point, trivial, fun rest => by
          rw [read, if_neg hd, if_pos hp]⟩
      · exact Or.inr ⟨l, fun rest => by rw [read, if_neg hd, if_neg hp]⟩
  | precision l =>
    by_cases hd : isDigit c = true
    · exact Or.inl ⟨hdigit hd, .precision (l.precisionDigit c), trivial, fun rest => by
        rw [read, if_pos hd]⟩
    · exact Or.inr ⟨l, fun rest => by rw [read, if_neg hd]⟩

/-- What stands between the place of a mode and a verb is a directive, whatever stands behind it. -/
structure Reads (m : Mode) (front : List Char) (verb : Char) (l : Layout) : Prop where
  percent : '%' ∉ front
  read_eq : ∀ rest, read m (front ++ verb :: rest) = .directive l verb :: read .text rest

/-- A directive comes to its verb, or the format ends before. -/
theorem read_inside_cases {m : Mode} (hm : m.IsInside) (f : List Char) :
    read m f = [.incomplete] ∨
      ∃ front verb l rest, f = front ++ verb :: rest ∧ Reads m front verb l := by
  induction f generalizing m with
  | nil => exact Or.inl (read_inside_nil hm)
  | cons c f ih =>
    rcases read_inside_cons hm c with ⟨hc, m', hm', hread⟩ | ⟨l, hread⟩
    · rcases ih hm' with h | ⟨front, verb, l, rest, rfl, hfront⟩
      · exact Or.inl ((hread f).trans h)
      · refine Or.inr ⟨c :: front, verb, l, rest, rfl, ?_, fun g => ?_⟩
        · exact List.not_mem_cons_of_ne_of_not_mem hc.symm hfront.percent
        · rw [List.cons_append, hread, hfront.read_eq]
    · exact Or.inr ⟨[], c, l, f, rfl, List.not_mem_nil, hread⟩

/-- The pieces of a format that no directive is cut off from. -/
inductive Formatted : List Char → List FormatPiece → Prop
  | nil : Formatted [] []
  | percent {f ps} : Formatted f ps → Formatted ('%' :: '%' :: f) (.literal '%' :: ps)
  | literal {c f ps} : c ≠ '%' → Formatted f ps → Formatted (c :: f) (.literal c :: ps)
  | directive {front verb l f ps} : Reads (.flags .default) front verb l →
      (front = [] → verb ≠ '%') → Formatted f ps →
      Formatted ('%' :: front ++ verb :: f) (.directive l verb :: ps)

theorem read_percent {f : List Char} (h : f.head? ≠ some '%') :
    read .text ('%' :: f) = read (.flags .default) f := by
  cases f with
  | nil => rfl
  | cons c f =>
    have hc : c ≠ '%' := fun hc => h (congrArg some hc)
    simp [read, hc]

theorem read_literal {c : Char} (h : c ≠ '%') (f : List Char) :
    read .text (c :: f) = .literal c :: read .text f := by
  simp [read, h]

theorem head?_directive {front : List Char} {verb : Char} (hfront : '%' ∉ front)
    (hverb : front = [] → verb ≠ '%') (f : List Char) : (front ++ verb :: f).head? ≠ some '%' := by
  cases front with
  | nil => exact fun h => hverb rfl (Option.some.inj h)
  | cons c front => exact fun h => hfront (List.mem_cons.mpr (Or.inl (Option.some.inj h).symm))

theorem formatted_of_complete (f : List Char) (h : .incomplete ∉ read .text f) :
    Formatted f (read .text f) := by
  induction hn : f.length using Nat.strongRecOn generalizing f with
  | _ n ih =>
    subst hn
    cases f with
    | nil => exact .nil
    | cons c f =>
      by_cases hc : c = '%'
      · subst hc
        by_cases hdouble : f.head? = some '%'
        · obtain ⟨f, rfl⟩ := List.head?_eq_some_iff.mp hdouble
          have hshorter : f.length < ('%' :: '%' :: f).length :=
            Nat.lt_succ_of_lt (Nat.lt_succ_self f.length)
          rw [read] at h ⊢
          exact .percent (ih _ hshorter f (fun hf => h (List.mem_cons_of_mem _ hf)) rfl)
        · rw [read_percent hdouble] at h ⊢
          have hinside : (Mode.flags .default).IsInside := trivial
          rcases read_inside_cases hinside f with hcut | ⟨front, verb, l, rest, rfl, hread⟩
          · rw [hcut] at h
            exact absurd (List.mem_singleton_self _) h
          · rw [hread.read_eq] at h ⊢
            have hverb : front = [] → verb ≠ '%' := by
              rintro rfl rfl
              exact hdouble rfl
            have hshorter : rest.length < ('%' :: (front ++ verb :: rest)).length := by
              simp only [List.length_cons, List.length_append]
              omega
            exact .directive hread hverb
              (ih _ hshorter rest (fun hf => h (List.mem_cons_of_mem _ hf)) rfl)
      · rw [read_literal hc] at h ⊢
        exact .literal hc
          (ih _ (Nat.lt_succ_self f.length) f (fun hf => h (List.mem_cons_of_mem _ hf)) rfl)

theorem Formatted.read_followed {f : List Char} {ps : List FormatPiece} (h : Formatted f ps)
    (g : List Char) : read .text (f ++ g) = ps ++ read .text g := by
  induction h with
  | nil => rfl
  | percent _ ih => exact congrArg (.literal '%' :: ·) ih
  | literal hc _ ih =>
    rw [List.cons_append, read_literal hc, ih]
    rfl
  | @directive front verb l f ps hread hverb _ ih =>
    rw [List.append_assoc, List.cons_append, List.cons_append,
      read_percent (head?_directive hread.percent hverb (f ++ g)), hread.read_eq, ih]
    rfl

/-- Whether a piece takes a value. -/
def isDirective : FormatPiece → Bool
  | .directive _ _ => true
  | .literal _ | .incomplete => false

/-- How many percent signs of a format are not doubled. -/
def directives : List Char → Nat
  | '%' :: '%' :: rest => directives rest
  | '%' :: rest => directives rest + 1
  | _ :: rest => directives rest
  | [] => 0

theorem directives_literal {c : Char} (h : c ≠ '%') (f : List Char) :
    directives (c :: f) = directives f := by
  simp [directives, h]

theorem directives_append {front : List Char} (h : '%' ∉ front) (f : List Char) :
    directives (front ++ f) = directives f := by
  induction front with
  | nil => rfl
  | cons c front ih =>
    obtain ⟨hc, hfront⟩ := not_or.mp (mt List.mem_cons.mpr h)
    rw [List.cons_append, directives_literal (Ne.symm hc), ih hfront]

theorem directives_percent {f : List Char} (h : f.head? ≠ some '%') :
    directives ('%' :: f) = directives f + 1 := by
  cases f with
  | nil => rfl
  | cons c f =>
    have hc : c ≠ '%' := fun hc => h (congrArg some hc)
    simp [directives, hc]

/-- If no verb is a percent sign, each of them that is not doubled begins a directive. -/
theorem Formatted.countP_isDirective {f : List Char} {ps : List FormatPiece} (h : Formatted f ps)
    (hverbs : ∀ l, .directive l '%' ∉ ps) : ps.countP isDirective = directives f := by
  induction h with
  | nil => rfl
  | percent _ ih => exact ih fun l hl => hverbs l (List.mem_cons_of_mem _ hl)
  | literal hc _ ih =>
    rw [directives_literal hc]
    exact ih fun l hl => hverbs l (List.mem_cons_of_mem _ hl)
  | @directive front verb l f ps hread hfirst _ ih =>
    have hverb : verb ≠ '%' := by
      rintro rfl
      exact hverbs l List.mem_cons_self
    have hhead := head?_directive hread.percent hfirst f
    rw [List.cons_append, directives_percent hhead, directives_append hread.percent,
      directives_literal hverb, ← ih fun l hl => hverbs l (List.mem_cons_of_mem _ hl)]
    exact List.countP_cons_of_pos rfl

end FormatPiece

/-- What pieces show of values, one for each directive. -/
inductive Shows : List FormatPiece → List Value → List Char → Prop
  | nil : Shows [] [] []
  | literal {c ps xs s} : Shows ps xs s → Shows (.literal c :: ps) xs (c :: s)
  | directive {l verb v shown ps xs s} : Directive.apply l verb v = .ok shown → Shows ps xs s →
      Shows (.directive l verb :: ps) (v :: xs) (shown ++ s)

theorem formatPieces_literal (c : Char) (ps : List FormatPiece) (xs : List Value) :
    formatPieces (.literal c :: ps) xs = (formatPieces ps xs).map (c :: ·) := by
  rw [formatPieces]
  cases formatPieces ps xs <;> rfl

theorem formatPieces_directive {l : Layout} {verb : Char} {v : Value} {shown : List Char}
    (h : Directive.apply l verb v = .ok shown) (ps : List FormatPiece) (xs : List Value) :
    formatPieces (.directive l verb :: ps) (v :: xs) = (formatPieces ps xs).map (shown ++ ·) := by
  rw [formatPieces, h]
  cases formatPieces ps xs <;> rfl

theorem shows_of_formatPieces {ps : List FormatPiece} {xs : List Value} {s : List Char}
    (h : formatPieces ps xs = .ok s) : Shows ps xs s := by
  induction ps generalizing xs s with
  | nil =>
    cases xs with
    | nil =>
      cases h
      exact .nil
    | cons v xs => cases h
  | cons p ps ih =>
    cases p with
    | literal c =>
      rw [formatPieces_literal] at h
      cases hrest : formatPieces ps xs with
      | error fault =>
        rw [hrest] at h
        cases h
      | ok more =>
        rw [hrest] at h
        cases h
        exact .literal (ih hrest)
    | incomplete => cases h
    | directive l verb =>
      cases xs with
      | nil => cases h
      | cons v xs =>
        cases hshown : Directive.apply l verb v with
        | error fault =>
          rw [formatPieces, hshown] at h
          cases h
        | ok shown =>
          rw [formatPieces_directive hshown] at h
          cases hrest : formatPieces ps xs with
          | error fault =>
            rw [hrest] at h
            cases h
          | ok more =>
            rw [hrest] at h
            cases h
            exact .directive hshown (ih hrest)

namespace Shows

variable {ps : List FormatPiece} {xs : List Value} {s : List Char}

theorem complete (h : Shows ps xs s) : .incomplete ∉ ps := by
  induction h with
  | nil => exact List.not_mem_nil
  | literal _ ih | directive _ _ ih => exact List.not_mem_cons_of_ne_of_not_mem nofun ih

/-- A percent sign is no verb. -/
theorem verbs (h : Shows ps xs s) (l : Layout) : .directive l '%' ∉ ps := by
  induction h with
  | nil => exact List.not_mem_nil
  | literal _ ih => exact List.not_mem_cons_of_ne_of_not_mem nofun ih
  | directive hshown _ ih =>
    refine List.not_mem_cons_of_ne_of_not_mem (fun heq => ?_) ih
    cases heq
    cases hshown

theorem length_eq (h : Shows ps xs s) : xs.length = ps.countP FormatPiece.isDirective := by
  induction h with
  | nil => rfl
  | literal _ ih => exact ih
  | directive _ _ ih => exact (congrArg (· + 1) ih).trans (List.countP_cons_of_pos rfl).symm

theorem formatPieces_append (h : Shows ps xs s) (qs : List FormatPiece) (ys : List Value) :
    formatPieces (ps ++ qs) (xs ++ ys) = (formatPieces qs ys).map (s ++ ·) := by
  induction h with
  | nil => cases h : formatPieces qs ys <;> simp [h, Except.map]
  | literal _ ih =>
    rw [List.cons_append, formatPieces_literal, ih]
    cases formatPieces qs ys <;> rfl
  | directive hshown _ ih =>
    rw [List.cons_append, List.cons_append, formatPieces_directive hshown, ih]
    cases formatPieces qs ys <;> simp [Except.map]

end Shows

/-- A text as the format that shows it: percent signs are doubled. -/
def doubled (text : List Char) : List Char :=
  text.flatMap fun c => if c = '%' then ['%', '%'] else [c]

theorem ofFormat_doubled (text : List Char) :
    FormatPiece.ofFormat (doubled text) = text.map .literal := by
  induction text with
  | nil => rfl
  | cons c text ih =>
    by_cases hc : c = '%'
    · subst hc
      exact congrArg (.literal '%' :: ·) ih
    · have hcons : doubled (c :: text) = c :: doubled text := by simp [doubled, hc]
      rw [hcons, FormatPiece.ofFormat, FormatPiece.read_literal hc]
      exact congrArg (.literal c :: ·) ih

theorem formatPieces_literals (text : List Char) :
    formatPieces (text.map .literal) [] = .ok text := by
  induction text with
  | nil => rfl
  | cons c text ih =>
    rw [List.map_cons, formatPieces_literal, ih]
    rfl

theorem sprintf_eq_map (format : String) (xs : List Value) :
    sprintf format xs =
      (formatPieces (FormatPiece.ofFormat format.toList) xs).map String.ofList := by
  rw [sprintf]
  cases formatPieces (FormatPiece.ofFormat format.toList) xs <;> rfl

theorem shows_of_sprintf {format s : String} {xs : List Value} (h : sprintf format xs = .ok s) :
    Shows (FormatPiece.ofFormat format.toList) xs s.toList := by
  rw [sprintf_eq_map] at h
  cases hpieces : formatPieces (FormatPiece.ofFormat format.toList) xs with
  | error fault =>
    rw [hpieces] at h
    cases h
  | ok text =>
    rw [hpieces] at h
    cases h
    rw [String.toList_ofList]
    exact shows_of_formatPieces hpieces

/-- Behind a format that is used up another one goes on with the values that are left, and does as it
would alone, failing or not. How many values are used up is seen from the format: one for each of its
directives, which are as many as its percent signs that are not doubled. And every text is shown by a
format that needs no values. -/
theorem sprintf_appends (f g u : String) (xs ys : List Value) :
    (∀ s t, sprintf f xs = .ok s → sprintf g ys = .ok t →
      sprintf (f ++ g) (xs ++ ys) = .ok (s ++ t)) ∧
    (∀ s fault, sprintf f xs = .ok s → sprintf g ys = .error fault →
      sprintf (f ++ g) (xs ++ ys) = .error fault) ∧
    (∀ s, sprintf f xs = .ok s →
      xs.length = (FormatPiece.ofFormat f.toList).countP FormatPiece.isDirective ∧
      xs.length = FormatPiece.directives f.toList) ∧
    sprintf (String.ofList (doubled u.toList)) [] = .ok u := by
  have happend {s : String} (h : sprintf f xs = .ok s) :
      sprintf (f ++ g) (xs ++ ys) = (sprintf g ys).map (s ++ ·) := by
    have hshows := shows_of_sprintf h
    have hformatted := FormatPiece.formatted_of_complete f.toList hshows.complete
    have hread : FormatPiece.ofFormat (f ++ g).toList =
        FormatPiece.ofFormat f.toList ++ FormatPiece.ofFormat g.toList := by
      rw [String.toList_append]
      exact hformatted.read_followed g.toList
    rw [sprintf_eq_map, sprintf_eq_map, hread, hshows.formatPieces_append]
    cases formatPieces (FormatPiece.ofFormat g.toList) ys with
    | error fault => rfl
    | ok text =>
      refine congrArg Except.ok (String.toList_inj.mp ?_)
      rw [String.toList_ofList, String.toList_append, String.toList_ofList]
  refine ⟨fun s t hs ht => ?_, fun s fault hs hfault => ?_, fun s hs => ?_, ?_⟩
  · rw [happend hs, ht]
    rfl
  · rw [happend hs, hfault]
    rfl
  · have hshows := shows_of_sprintf hs
    have hformatted := FormatPiece.formatted_of_complete f.toList hshows.complete
    exact ⟨hshows.length_eq, hshows.length_eq.trans (hformatted.countP_isDirective hshows.verbs)⟩
  · rw [sprintf_eq_map, String.toList_ofList, ofFormat_doubled, formatPieces_literals]
    exact congrArg Except.ok String.ofList_toList

/-- A directive behind a doubled percent sign is one, and the digits behind a directive are not its. -/
theorem sprintf_appends_percent :
    sprintf "%5d%%" [.int (-42)] = .ok "  -42%" ∧ sprintf "%s1" [.text "a"] = .ok "a1" ∧
    sprintf ("%5d%%" ++ "%s1") ([.int (-42)] ++ [.text "a"]) = .ok ("  -42%" ++ "a1") := by
  have hleft : sprintf "%5d%%" [.int (-42)] = .ok "  -42%" := rfl
  have hright : sprintf "%s1" [.text "a"] = .ok "a1" := rfl
  exact ⟨hleft, hright, (sprintf_appends "%5d%%" "%s1" "" _ _).1 _ _ hleft hright⟩

end Stencil
