import Stencil.Expr.Token

/-! # What pieces spell

Which token a piece of an expression spells is said here case by case: a word is one of the three
that join and negate, a number if it looks like one and can be read, or else a name, and between
quotes a backslash goes where it hides what is behind it. -/
namespace Stencil

/-- What a quoted text says without the backslashes that hide a quote or a backslash. -/
inductive Unescapes : List Char → List Char → Prop
  | nil : Unescapes [] []
  | hidden {c s t} : c = '"' ∨ c = '\\' → Unescapes s t → Unescapes ('\\' :: c :: s) (c :: t)
  | plain {c s t} : (c = '\\' → s.head? ≠ some '"' ∧ s.head? ≠ some '\\') → Unescapes s t →
      Unescapes (c :: s) (c :: t)

theorem unescapes_unescape (s : List Char) : Unescapes s (Token.unescape s) := by
  fun_induction Token.unescape s with
  | case1 rest ih => exact .hidden (Or.inl rfl) ih
  | case2 rest ih => exact .hidden (Or.inr rfl) ih
  | case3 c rest hquote hslash ih =>
    refine .plain (fun hc => ⟨fun hhead => ?_, fun hhead => ?_⟩) ih
    · obtain ⟨more, rfl⟩ := List.head?_eq_some_iff.mp hhead
      exact hquote more hc rfl
    · obtain ⟨more, rfl⟩ := List.head?_eq_some_iff.mp hhead
      exact hslash more hc rfl
  | case4 => exact .nil

theorem Unescapes.eq_unescape {s t : List Char} (h : Unescapes s t) : t = Token.unescape s := by
  induction h with
  | nil => rfl
  | hidden hc _ ih =>
    rcases hc with rfl | rfl
    · rw [Token.unescape, ih]
    · rw [Token.unescape, ih]
  | @plain c s t hc _ ih =>
    rw [Token.unescape, ih]
    · rintro more rfl rfl
      exact (hc rfl).1 rfl
    · rintro more rfl rfl
      exact (hc rfl).2 rfl

namespace Lexeme

/-- The token that a piece spells. -/
inductive Spells : Lexeme → Token → Prop
  | and : Spells (.word ['a', 'n', 'd']) (.connective .and)
  | or : Spells (.word ['o', 'r']) (.connective .or)
  | not : Spells (.word ['n', 'o', 't']) .negation
  | int {w n} : Token.looksNumeric w = true → readInt64? w = some n → Spells (.word w) (.int n)
  | float {w x} : Token.looksNumeric w = true → readInt64? w = none → readFloat? w = some x →
      Spells (.word w) (.float x)
  | name {w} : w ≠ ['a', 'n', 'd'] → w ≠ ['o', 'r'] → w ≠ ['n', 'o', 't'] →
      (Token.looksNumeric w = true → readInt64? w = none ∧ readFloat? w = none) →
      Spells (.word w) (.word (String.ofList w))
  | quoted {body s closed} : Unescapes body s → Spells (.quoted body closed) (.text (String.ofList s))
  | symbol (s : Symbol) : Spells (.symbol s) (.symbol s)

/-- The tokens that pieces spell, one after another, with nothing but blanks between them. -/
inductive SpellAll : List Lexeme → List Token → Prop
  | nil : SpellAll [] []
  | blank {c ps ts} : SpellAll ps ts → SpellAll (.blank c :: ps) ts
  | piece {p t ps ts} : p.Spells t → SpellAll ps ts → SpellAll (p :: ps) (t :: ts)

theorem ofWord_of_ne {w : List Char} (hand : w ≠ ['a', 'n', 'd']) (hor : w ≠ ['o', 'r'])
    (hnot : w ≠ ['n', 'o', 't']) : Token.ofWord w =
      if Token.looksNumeric w = true then
        match readInt64? w with
        | some n => .int n
        | none => match readFloat? w with
          | some x => .float x
          | none => .word (String.ofList w)
      else .word (String.ofList w) := by
  have hother (text : String) (h : w ≠ text.toList) : String.ofList w ≠ text :=
    fun heq => h (heq ▸ String.toList_ofList.symm)
  unfold Token.ofWord
  dsimp only
  refine (if_neg (hother "and" hand)).trans ((if_neg (hother "or" hor)).trans
    ((if_neg (hother "not" hnot)).trans ?_))
  cases readInt64? w with
  | some n => rfl
  | none => cases readFloat? w <;> rfl

theorem spells_ofWord (w : List Char) : Spells (.word w) (.ofWord w) := by
  by_cases hand : w = ['a', 'n', 'd']
  · subst hand
    exact .and
  by_cases hor : w = ['o', 'r']
  · subst hor
    exact .or
  by_cases hnot : w = ['n', 'o', 't']
  · subst hnot
    exact .not
  rw [ofWord_of_ne hand hor hnot]
  split
  · rename_i hnumeric
    cases hint : readInt64? w with
    | some n => exact .int hnumeric hint
    | none =>
      cases hfloat : readFloat? w with
      | some x => exact .float hnumeric hint hfloat
      | none => exact .name hand hor hnot fun _ => ⟨hint, hfloat⟩
  · rename_i hname
    exact .name hand hor hnot fun hnumeric => absurd hnumeric hname

theorem ne_of_looksNumeric {w v : List Char} (h : Token.looksNumeric w = true)
    (hv : Token.looksNumeric v = false) : w ≠ v := by
  rintro rfl
  rw [h] at hv
  cases hv

theorem Spells.token?_eq {p : Lexeme} {t : Token} (h : p.Spells t) : p.token? = some t := by
  have hnumber {w : List Char} (hnumeric : Token.looksNumeric w = true) :=
    ofWord_of_ne (ne_of_looksNumeric hnumeric rfl) (ne_of_looksNumeric hnumeric rfl)
      (ne_of_looksNumeric hnumeric rfl)
  cases h with
  | and | or | not | symbol => rfl
  | int hnumeric hint => rw [token?, hnumber hnumeric, if_pos hnumeric, hint]
  | float hnumeric hint hfloat => rw [token?, hnumber hnumeric, if_pos hnumeric, hint, hfloat]
  | @name w hand hor hnot hname =>
    rw [token?, ofWord_of_ne hand hor hnot]
    split
    · obtain ⟨hint, hfloat⟩ := hname ‹_›
      rw [hint, hfloat]
    · rfl
  | quoted hbody => rw [token?, hbody.eq_unescape]

theorem spells_iff {p : Lexeme} {t : Token} : p.Spells t ↔ p.token? = some t := by
  refine ⟨Spells.token?_eq, fun h => ?_⟩
  cases p with
  | blank c => cases h
  | word w => exact Option.some.inj h ▸ spells_ofWord w
  | quoted body closed => exact Option.some.inj h ▸ .quoted (unescapes_unescape body)
  | symbol s => exact Option.some.inj h ▸ .symbol s

theorem spellAll_iff {ps : List Lexeme} {ts : List Token} :
    SpellAll ps ts ↔ ps.filterMap token? = ts := by
  constructor
  · intro h
    induction h with
    | nil => rfl
    | blank _ ih => exact ih
    | piece hp _ ih => rw [List.filterMap_cons_some (spells_iff.mp hp), ih]
  · rintro rfl
    induction ps with
    | nil => exact .nil
    | cons p ps ih =>
      cases hp : p.token? with
      | some t =>
        rw [List.filterMap_cons_some hp]
        exact .piece (spells_iff.mpr hp) ih
      | none =>
        rw [List.filterMap_cons_none hp]
        cases p with
        | blank c => exact .blank ih
        | word | quoted | symbol => cases hp

end Lexeme

end Stencil
