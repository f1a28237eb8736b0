import Mathlib.Tactic.SplitIfs
import Stencil.Text.Escape

/-! # Escaped texts

An escaped text has no character that markup begins or ends with, and an ampersand only at the
start of an entity. Texts of this kind put together are of this kind again, whatever stands at the
seam. -/
namespace Stencil.Text

/-- The characters that may not stand for themselves. -/
def markupChars : List Char := ['<', '>', '"', '\'', '&']

/-- What may stand for them. -/
def entities : List String := ["&quot;", "&apos;", "&amp;", "&lt;", "&gt;"]

/-- No character of the text can be taken for markup. -/
structure IsEscaped (text : List Char) : Prop where
  plain : ∀ c ∈ text, c ≠ '<' ∧ c ≠ '>' ∧ c ≠ '"' ∧ c ≠ '\''
  entity : ∀ before after, text = before ++ '&' :: after →
    ∃ e ∈ entities, e.toList <+: '&' :: after

theorem isEscaped_nil : IsEscaped [] := ⟨by simp, by simp⟩

theorem IsEscaped.append {a b : List Char} (ha : IsEscaped a) (hb : IsEscaped b) :
    IsEscaped (a ++ b) := by
  refine ⟨?_, ?_⟩
  · intro c hc
    rcases List.mem_append.mp hc with hc | hc
    · exact ha.plain c hc
    · exact hb.plain c hc
  · intro before after h
    -- the ampersand stands in one of the two texts, and so does its entity
    rcases List.append_eq_append_iff.mp h with ⟨more, rfl, hmore⟩ | ⟨more, rfl, hmore⟩
    · exact hb.entity more after hmore
    · cases more with
      | nil => exact hb.entity [] after hmore.symm
      | cons c more =>
        obtain ⟨rfl, rfl⟩ := List.cons_eq_cons.mp hmore
        obtain ⟨e, he, hp⟩ := ha.entity before more rfl
        exact ⟨e, he, hp.trans (List.prefix_append ('&' :: more) b)⟩

theorem isEscaped_singleton {c : Char} (h : c ∉ markupChars) : IsEscaped [c] := by
  simp only [markupChars, List.mem_cons, List.not_mem_nil, or_false, not_or] at h
  obtain ⟨hlt, hgt, hquot, hapos, hamp⟩ := h
  refine ⟨?_, ?_⟩
  · intro d hd
    rw [List.mem_singleton.mp hd]
    exact ⟨hlt, hgt, hquot, hapos⟩
  · intro before after h
    cases before with
    | nil => exact absurd (List.cons_eq_cons.mp h).1 hamp
    | cons d before => simp at h

/-- An entity is an ampersand and plain characters. -/
theorem entity_shape : ∀ e ∈ entities,
    e.toList.head? = some '&' ∧ e.toList.tail.all (· ∉ markupChars) = true := by decide

theorem isEscaped_entity {e : String} (he : e ∈ entities) : IsEscaped e.toList := by
  obtain ⟨hhead, hall⟩ := entity_shape e he
  obtain ⟨word, hword⟩ := List.head?_eq_some_iff.mp hhead
  rw [hword, List.tail_cons] at hall
  have htail : ∀ c ∈ word, c ∉ markupChars := by
    intro c hc
    exact of_decide_eq_true (List.all_eq_true.mp hall c hc)
  rw [hword]
  refine ⟨?_, ?_⟩
  · intro c hc
    rcases List.mem_cons.mp hc with rfl | hc
    · decide
    · exact (isEscaped_singleton (htail c hc)).plain c (List.mem_singleton_self c)
  · intro before after h
    cases before with
    | nil => exact ⟨e, he, by rw [hword, h]; exact List.prefix_rfl⟩
    | cons c before =>
      have hm : '&' ∈ word := by rw [(List.cons_eq_cons.mp h).2]; simp
      exact absurd hm fun hm => htail '&' hm (by decide)

theorem entity_mem {c : Char} {e : String} (h : entity? c = some e) : e ∈ entities := by
  unfold entity? at h
  split_ifs at h <;> cases h <;> decide

theorem not_mem_markupChars {c : Char} (h : entity? c = none) : c ∉ markupChars := by
  unfold entity? at h
  split_ifs at h with hquot hapos hamp hlt hgt
  simp [markupChars, hquot, hapos, hamp, hlt, hgt]

theorem isEscaped_escapeChar (c : Char) : IsEscaped (escapeChar c) := by
  unfold escapeChar
  cases h : entity? c with
  | none => exact isEscaped_singleton (not_mem_markupChars h)
  | some e => exact isEscaped_entity (entity_mem h)

theorem isEscaped_flatMap {α : Type} {f : α → List Char} (l : List α)
    (h : ∀ a ∈ l, IsEscaped (f a)) : IsEscaped (l.flatMap f) := by
  induction l with
  | nil => exact isEscaped_nil
  | cons a rest ih =>
    rw [List.flatMap_cons]
    exact (h a List.mem_cons_self).append (ih fun b hb => h b (List.mem_cons_of_mem a hb))

theorem isEscaped_escape (s : String) : IsEscaped (escape s).toList := by
  rw [toList_escape]
  exact isEscaped_flatMap s.toList fun c _ => isEscaped_escapeChar c

/-- A text without special characters is escaped as it stands. -/
theorem isEscaped_of_plain {text : List Char} (h : ∀ c ∈ text, c ∉ markupChars) :
    IsEscaped text := by
  rw [← List.flatMap_singleton' text]
  exact isEscaped_flatMap text fun c hc => isEscaped_singleton (h c hc)

end Stencil.Text
