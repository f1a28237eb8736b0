import Mathlib.Data.List.DropRight
import Stencil.Text.Blank

/-! # Texts without white space at their ends

Trimming keeps the first character that is not white space at the front, and has nothing left to
do on its own result. -/
namespace Stencil.Text

theorem trimEnd_cons {c : Char} (hc : isBlank c = false) (text : List Char) :
    trimEnd (c :: text) = c :: trimEnd text := by
  unfold trimEnd
  rw [List.reverse_cons, List.dropWhile_append]
  cases h : text.reverse.dropWhile isBlank with
  | nil => simp [hc]
  | cons d rest => simp

theorem trim_cons_blank {c : Char} (hc : isBlank c = true) (text : List Char) :
    trim (c :: text) = trim text := by
  unfold trim trimStart
  rw [List.dropWhile_cons_of_pos hc]

/-- Trimming in front leaves nothing, or a text that starts with a visible character. -/
theorem trimStart_cases (text : List Char) :
    trimStart text = [] ∨ ∃ c rest, trimStart text = c :: rest ∧ isBlank c = false := by
  cases h : trimStart text with
  | nil => exact Or.inl rfl
  | cons c rest =>
    have hne : text.dropWhile isBlank ≠ [] := by
      intro hn
      exact List.cons_ne_nil c rest (h.symm.trans hn)
    have hhead : (text.dropWhile isBlank).head hne = c := by
      rw [List.head_eq_iff_head?_eq_some]
      exact congrArg List.head? h
    exact Or.inr ⟨c, rest, rfl, hhead ▸ List.head_dropWhile_not isBlank hne⟩

theorem head?_trim (text : List Char) : (trim text).head? = (trimStart text).head? := by
  unfold trim
  rcases trimStart_cases text with h | ⟨c, rest, h, hc⟩
  · rw [h]
    rfl
  · rw [h, trimEnd_cons hc]
    rfl

theorem trim_trim (text : List Char) : trim (trim text) = trim text := by
  unfold trim
  rcases trimStart_cases text with h | ⟨c, rest, h, hc⟩
  · rw [h]
    rfl
  · have hends : trimEnd (trimEnd rest) = trimEnd rest := by
      unfold trimEnd
      rw [List.reverse_reverse, List.dropWhile_idempotent]
    rw [h, trimEnd_cons hc, trimStart, List.dropWhile_cons_of_neg (by simp [hc]), trimEnd_cons hc,
      hends]

theorem trim_append_blank {c : Char} (hc : isBlank c = true) (text : List Char) :
    trim (text ++ [c]) = trim text := by
  have hend (text : List Char) : trimEnd (text ++ [c]) = trimEnd text := by
    rw [trimEnd, List.reverse_append, List.reverse_singleton, List.singleton_append,
      List.dropWhile_cons_of_pos hc, trimEnd]
  have hstart : trimStart (text ++ [c]) =
      if (trimStart text).isEmpty then [] else trimStart text ++ [c] := by
    unfold trimStart
    rw [List.dropWhile_append, List.dropWhile_cons_of_pos hc, List.dropWhile_nil]
  unfold trim
  rw [hstart]
  rcases trimStart_cases text with h | ⟨d, rest, h, -⟩
  · rw [h]
    rfl
  · rw [h]
    exact hend (d :: rest)

/-- The first and the last character are no white space. -/
structure HasVisibleEnds (text : List Char) : Prop where
  first : text.head?.map isBlank = some false
  last : text.getLast?.map isBlank = some false

namespace HasVisibleEnds

variable {text other : List Char}

theorem of_visible (hne : text ≠ []) (h : ∀ c ∈ text, isBlank c = false) :
    HasVisibleEnds text := by
  refine ⟨?_, ?_⟩
  · rw [List.head?_eq_some_head hne, Option.map_some, h _ (List.head_mem hne)]
  · rw [List.getLast?_eq_some_getLast hne, Option.map_some, h _ (List.getLast_mem hne)]

/-- Whatever stands between two texts. -/
theorem append (h : HasVisibleEnds text) (middle : List Char) (ho : HasVisibleEnds other) :
    HasVisibleEnds (text ++ middle ++ other) := by
  obtain ⟨c, hc, hfirst⟩ := Option.map_eq_some_iff.mp h.first
  obtain ⟨d, hd, hlast⟩ := Option.map_eq_some_iff.mp ho.last
  refine ⟨?_, ?_⟩
  · rw [List.append_assoc, List.head?_append, hc, Option.some_or, Option.map_some, hfirst]
  · rw [List.getLast?_append, hd, Option.some_or, Option.map_some, hlast]

theorem cons {c : Char} (hc : isBlank c = false) (h : HasVisibleEnds text) :
    HasVisibleEnds (c :: text) := by
  have hsingle : HasVisibleEnds [c] := of_visible (List.cons_ne_nil c []) (by simpa using hc)
  exact hsingle.append [] h

theorem trim_eq (h : HasVisibleEnds text) : trim text = text := by
  obtain ⟨c, hc, hfirst⟩ := Option.map_eq_some_iff.mp h.first
  obtain ⟨d, hd, hlast⟩ := Option.map_eq_some_iff.mp h.last
  obtain ⟨rest, hrest⟩ := List.head?_eq_some_iff.mp hc
  obtain ⟨front, hfront⟩ := List.getLast?_eq_some_iff.mp hd
  have hstart : trimStart text = text := by
    rw [trimStart, hrest, List.dropWhile_cons_of_neg (by simp [hfirst])]
  rw [trim, hstart, trimEnd, hfront, List.reverse_append, List.reverse_singleton,
    List.singleton_append, List.dropWhile_cons_of_neg (by simp [hlast]), List.reverse_cons,
    List.reverse_reverse]

/-- The ends of a text from which nothing can be trimmed. -/
theorem of_trim_eq (hne : text ≠ []) (h : trim text = text) : HasVisibleEnds text := by
  have hstart : text.head?.map isBlank = some false := by
    rw [← h, head?_trim]
    rcases trimStart_cases text with hnil | ⟨c, rest, hcons, hc⟩
    · rw [trim, hnil] at h
      exact absurd h.symm hne
    · rw [hcons, List.head?_cons, Option.map_some, hc]
  have hend : text.getLast?.map isBlank = some false := by
    rcases trimStart_cases (trimStart text).reverse with hnil | ⟨c, rest, hcons, hc⟩
    · rw [trim, trimEnd, ← trimStart, hnil] at h
      exact absurd h.symm hne
    · rw [← h, trim, trimEnd, ← trimStart, hcons, List.getLast?_reverse, List.head?_cons,
        Option.map_some, hc]
  exact ⟨hstart, hend⟩

end HasVisibleEnds

end Stencil.Text
