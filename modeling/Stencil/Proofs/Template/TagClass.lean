import Stencil.Proofs.Text.Trimming
import Stencil.Template.Tag

/-! # What a tag is

A tag is classed by the first character of its inside, white space left out. Either its class
accepts the rest of it or exactly one fault is found; nothing is both or neither.
-/
namespace Stencil.Tag

/-- The inside of a tag of no class of its own: it is a pipeline that is escaped. -/
structure IsPlain (text : List Char) : Prop where
  nonempty : text ≠ []
  unmarked : ∀ c ∈ text.head?, c ∉ ['!', '#', '?', '/']
  unbraced : ∀ middle, text ≠ '\x7b' :: middle ++ ['\x7d']

/-- What follows a name of letters: white space, or nothing at all. -/
def EndsWord (rest : List Char) : Prop := ∀ c ∈ rest.head?, Text.isBlank c = true

/-- The tag that an inside spells. -/
inductive Spells : Bool → List Char → Tag → Prop
  | raw {inner p} : Pipeline.ofText (Text.trim inner) = .ok p → Spells true inner (.variable p true)
  | comment {inner rest} : Text.trim inner = '!' :: rest → Spells false inner .comment
  | opening {inner rest} : Text.trim inner = '#' :: rest → Text.trim rest ≠ [] →
      Spells false inner (.opening (String.ofList (Text.trim rest)))
  | otherwise {inner} : Text.trim inner = "?else".toList → Spells false inner .otherwise
  | test {inner rest c} : Text.trim inner = "?if".toList ++ rest → EndsWord rest →
      Condition.ofText (Text.trim rest) = .ok c → Spells false inner (.test c)
  | closing {inner rest} : Text.trim inner = '/' :: rest →
      Spells false inner (.closing (String.ofList (Text.trim rest)))
  | braced {inner middle p} : Text.trim inner = '\x7b' :: middle ++ ['\x7d'] →
      Pipeline.ofText (Text.trim middle) = .ok p → Spells false inner (.variable p true)
  | plain {inner p} : IsPlain (Text.trim inner) → Pipeline.ofText (Text.trim inner) = .ok p →
      Spells false inner (.variable p false)

/-- The fault of an inside that spells no tag. -/
inductive Fails : Bool → List Char → TagFault → Prop
  | raw {inner f} : Pipeline.ofText (Text.trim inner) = .error f → Fails true inner (.expression f)
  | empty {inner} : Text.trim inner = [] → Fails false inner .empty
  | unnamed {inner rest} : Text.trim inner = '#' :: rest → Text.trim rest = [] →
      Fails false inner .unnamedSection
  | conditional {inner rest} : Text.trim inner = '?' :: rest → rest ≠ "else".toList →
      (∀ more, rest = "if".toList ++ more → ¬ EndsWord more) →
      Fails false inner (.badConditional (String.ofList ('?' :: rest)))
  | test {inner rest f} : Text.trim inner = "?if".toList ++ rest → EndsWord rest →
      Condition.ofText (Text.trim rest) = .error f → Fails false inner (.expression f)
  | braced {inner middle f} : Text.trim inner = '\x7b' :: middle ++ ['\x7d'] →
      Pipeline.ofText (Text.trim middle) = .error f → Fails false inner (.expression f)
  | plain {inner f} : IsPlain (Text.trim inner) →
      Pipeline.ofText (Text.trim inner) = .error f → Fails false inner (.expression f)

theorem questionOf_cases (rest : List Char) :
    (rest = "else".toList ∧ questionOf rest = .ok .otherwise) ∨
    (∃ more, rest = "if".toList ++ more ∧ EndsWord more ∧ questionOf rest = testOf more) ∨
    (rest ≠ "else".toList ∧ (∀ more, rest = "if".toList ++ more → ¬ EndsWord more) ∧
      questionOf rest = .error (.badConditional (String.ofList ('?' :: rest)))) := by
  unfold questionOf
  split
  · exact Or.inl ⟨rfl, rfl⟩
  · exact Or.inr (Or.inl ⟨[], rfl, by simp [EndsWord], rfl⟩)
  · rename_i c more
    by_cases hc : Text.isBlank c
    · refine Or.inr (Or.inl ⟨c :: more, rfl, by simpa [EndsWord] using hc, ?_⟩)
      dsimp only
      rw [if_pos hc, testOf, testOf, Text.trim_cons_blank hc]
    · refine Or.inr (Or.inr ⟨by simp, ?_, if_neg hc⟩)
      intro word hword hends
      obtain rfl : c :: more = word := by simpa using hword
      exact hc (hends c rfl)
  · rename_i helse hif hblank
    refine Or.inr (Or.inr ⟨fun h => helse (by simpa using h), ?_, rfl⟩)
    intro word hword _
    cases word with
    | nil => exact hif (by simpa using hword)
    | cons c more => exact hblank c more (by simpa using hword)

theorem questionOf_if {rest : List Char} (hw : EndsWord rest) :
    questionOf ("if".toList ++ rest) = testOf rest := by
  rcases questionOf_cases ("if".toList ++ rest) with ⟨h, -⟩ | ⟨more, h, -, heq⟩ | ⟨-, h, -⟩
  · exact absurd h (by simp)
  · rwa [← List.append_cancel_left h] at heq
  · exact absurd hw (h rest rfl)

theorem ofTrimmed_braced (middle : List Char) :
    ofTrimmed ('\x7b' :: middle ++ ['\x7d']) = variableOf true middle := by
  simp [ofTrimmed]

theorem ofTrimmed_plain {text : List Char} (h : IsPlain text) :
    ofTrimmed text = variableOf false text := by
  unfold ofTrimmed
  split
  · exact absurd rfl h.nonempty
  · exact absurd (by simp) (h.unmarked '!' rfl)
  · exact absurd (by simp) (h.unmarked '#' rfl)
  · exact absurd (by simp) (h.unmarked '?' rfl)
  · exact absurd (by simp) (h.unmarked '/' rfl)
  · rename_i rest
    refine if_neg fun hlast => ?_
    obtain ⟨middle, rfl⟩ := List.getLast?_eq_some_iff.mp hlast
    exact h.unbraced middle rfl
  · rfl

/-- Every inside is of one of the classes. -/
theorem class_cases (text : List Char) :
    text = [] ∨ (∃ rest, text = '!' :: rest) ∨ (∃ rest, text = '#' :: rest) ∨
    (∃ rest, text = '?' :: rest) ∨ (∃ rest, text = '/' :: rest) ∨
    (∃ middle, text = '\x7b' :: middle ++ ['\x7d']) ∨ IsPlain text := by
  by_contra hnone
  simp only [not_or, not_exists] at hnone
  obtain ⟨hnil, hcomment, hopening, hquestion, hclosing, hbraced, hplain⟩ := hnone
  refine hplain ⟨hnil, ?_, hbraced⟩
  intro c hc
  obtain ⟨rest, rfl⟩ := List.head?_eq_some_iff.mp hc
  intro hm
  simp only [List.mem_cons, List.not_mem_nil, or_false] at hm
  rcases hm with rfl | rfl | rfl | rfl
  · exact hcomment rest rfl
  · exact hopening rest rfl
  · exact hquestion rest rfl
  · exact hclosing rest rfl

theorem ofInner_trimmed {inner text : List Char} (h : Text.trim inner = text) :
    ofInner false inner = ofTrimmed text := h ▸ rfl

variable {raw : Bool} {text inner : List Char} {t : Tag} {f : SyntaxFault}

theorem variableOf_ok {p : Pipeline} (h : Pipeline.ofText (Text.trim text) = .ok p) :
    variableOf raw text = .ok (.variable p raw) := by rw [variableOf, h]

theorem variableOf_error (h : Pipeline.ofText (Text.trim text) = .error f) :
    variableOf raw text = .error (.expression f) := by rw [variableOf, h]

theorem testOf_ok {c : Condition} (h : Condition.ofText (Text.trim text) = .ok c) :
    testOf text = .ok (.test c) := by rw [testOf, h]

theorem testOf_error (h : Condition.ofText (Text.trim text) = .error f) :
    testOf text = .error (.expression f) := by rw [testOf, h]

theorem ofInner_of_spells (h : Spells raw inner t) : ofInner raw inner = .ok t := by
  cases h with
  | raw hp => exact variableOf_ok hp
  | comment ht => exact ofInner_trimmed ht
  | opening ht hn => exact (ofInner_trimmed ht).trans (if_neg hn)
  | otherwise ht => exact ofInner_trimmed ht
  | test ht hw hc =>
    exact (ofInner_trimmed ht).trans ((questionOf_if hw).trans (testOf_ok hc))
  | closing ht => exact ofInner_trimmed ht
  | braced ht hp => rw [ofInner_trimmed ht, ofTrimmed_braced, variableOf_ok hp]
  | plain hplain hp =>
    rw [ofInner_trimmed rfl, ofTrimmed_plain hplain]
    exact variableOf_ok ((congrArg Pipeline.ofText (Text.trim_trim inner)).trans hp)

theorem ofInner_of_fails {fault : TagFault} (h : Fails raw inner fault) :
    ofInner raw inner = .error fault := by
  cases h with
  | raw hp => exact variableOf_error hp
  | empty ht => exact ofInner_trimmed ht
  | unnamed ht hn => exact (ofInner_trimmed ht).trans (if_pos hn)
  | @conditional _ rest ht helse hif =>
    rw [ofInner_trimmed ht]
    rcases questionOf_cases rest with ⟨h, -⟩ | ⟨more, h, hw, -⟩ | ⟨-, -, heq⟩
    · exact absurd h helse
    · exact absurd hw (hif more h)
    · exact heq
  | test ht hw hc =>
    exact (ofInner_trimmed ht).trans ((questionOf_if hw).trans (testOf_error hc))
  | braced ht hp => rw [ofInner_trimmed ht, ofTrimmed_braced, variableOf_error hp]
  | plain hplain hp =>
    rw [ofInner_trimmed rfl, ofTrimmed_plain hplain]
    exact variableOf_error ((congrArg Pipeline.ofText (Text.trim_trim inner)).trans hp)

/-- Every inside spells a tag or has a fault. -/
theorem spells_or_fails (raw : Bool) (inner : List Char) :
    (∃ t, Spells raw inner t) ∨ ∃ fault, Fails raw inner fault := by
  cases raw with
  | true =>
    cases hp : Pipeline.ofText (Text.trim inner) with
    | ok p => exact Or.inl ⟨_, .raw hp⟩
    | error f => exact Or.inr ⟨_, .raw hp⟩
  | false =>
    rcases class_cases (Text.trim inner) with
      ht | ⟨rest, ht⟩ | ⟨rest, ht⟩ | ⟨rest, ht⟩ | ⟨rest, ht⟩ | ⟨middle, ht⟩ | hplain
    · exact Or.inr ⟨_, .empty ht⟩
    · exact Or.inl ⟨_, .comment ht⟩
    · by_cases hn : Text.trim rest = []
      · exact Or.inr ⟨_, .unnamed ht hn⟩
      · exact Or.inl ⟨_, .opening ht hn⟩
    · rcases questionOf_cases rest with ⟨rfl, -⟩ | ⟨more, rfl, hw, -⟩ | ⟨helse, hif, -⟩
      · exact Or.inl ⟨_, .otherwise ht⟩
      · cases hc : Condition.ofText (Text.trim more) with
        | ok c => exact Or.inl ⟨_, .test ht hw hc⟩
        | error f => exact Or.inr ⟨_, .test ht hw hc⟩
      · exact Or.inr ⟨_, .conditional ht helse hif⟩
    · exact Or.inl ⟨_, .closing ht⟩
    · cases hp : Pipeline.ofText (Text.trim middle) with
      | ok p => exact Or.inl ⟨_, .braced ht hp⟩
      | error f => exact Or.inr ⟨_, .braced ht hp⟩
    · cases hp : Pipeline.ofText (Text.trim inner) with
      | ok p => exact Or.inl ⟨_, .plain hplain hp⟩
      | error f => exact Or.inr ⟨_, .plain hplain hp⟩

theorem ofInner_eq_ok_iff : ofInner raw inner = .ok t ↔ Spells raw inner t := by
  refine ⟨fun h => ?_, ofInner_of_spells⟩
  rcases spells_or_fails raw inner with ⟨u, hu⟩ | ⟨fault, hf⟩
  · have he := (ofInner_of_spells hu).symm.trans h
    cases he
    exact hu
  · exact absurd ((ofInner_of_fails hf).symm.trans h) (by simp)

/-- The opening tags of sections are told by their first character. -/
theorem Spells.opens_iff (h : Spells raw inner t) :
    (raw = false ∧ (Text.trim inner).head? = some '#') ↔ ∃ name, t = .opening name := by
  cases h with
  | opening ht => simp [ht]
  | raw | comment ht | otherwise ht | test ht | closing ht | braced ht => simp_all
  | plain hplain =>
    have hhash : (Text.trim inner).head? ≠ some '#' :=
      fun hc => hplain.unmarked '#' hc (by decide)
    simp [hhash]

end Stencil.Tag
