import Mathlib.Data.List.Infix
import Stencil.Proofs.Expr.Reading
import Stencil.Proofs.Expr.Spelling
import Stencil.Proofs.Template.TagClass

/-! # Trees that their source can say

A tree is canonical if texts are separated by tags and cannot be mistaken for the beginning of one,
and if what stands in a tag has no closing braces. Between its braces a tag of such a tree spells
that tag: spaces around an expression or a name can be told from it.
-/
namespace Stencil

/-- A name has no white space in it. -/
def Token.IsUnbroken : Token → Prop
  | .word name => ∀ c ∈ name.toList, Text.isBlank c = false
  | .text _ | .int _ | .float _ | .symbol _ | .connective _ | .negation => True

/-- Tokens that are read back from the inside of a tag. -/
structure Token.FitTag (ts : List Token) : Prop where
  canonical : ∀ t ∈ ts, t.IsCanonical
  unbroken : ∀ t ∈ ts, t.IsUnbroken
  closed : ¬ "\x7d\x7d".toList <:+: spell ts

instance : DecidablePred Token.IsUnbroken
  | .word name => inferInstanceAs (Decidable (∀ c ∈ name.toList, Text.isBlank c = false))
  | .text _ | .int _ | .float _ | .symbol _ | .connective _ | .negation => .isTrue trivial

instance (ts : List Token) : Decidable (Token.FitTag ts) :=
  decidable_of_iff ((∀ t ∈ ts, t.IsCanonical) ∧ (∀ t ∈ ts, t.IsUnbroken) ∧
      ¬ "\x7d\x7d".toList <:+: spell ts)
    ⟨fun h => ⟨h.1, h.2.1, h.2.2⟩, fun h => ⟨h.canonical, h.unbroken, h.closed⟩⟩

/-- A name of a section that is read back from its tags. -/
structure IsSectionName (name : String) : Prop where
  nonempty : name.toList ≠ []
  trimmed : Text.trim name.toList = name.toList
  closed : ¬ "\x7d\x7d".toList <:+: name.toList

instance : DecidablePred IsSectionName := fun name =>
  decidable_of_iff (name.toList ≠ [] ∧ Text.trim name.toList = name.toList ∧
      ¬ "\x7d\x7d".toList <:+: name.toList)
    ⟨fun h => ⟨h.1, h.2.1, h.2.2⟩, fun h => ⟨h.nonempty, h.trimmed, h.closed⟩⟩

def Node.isText : Node → Bool
  | .text _ => true
  | .variable .. | .scope .. | .choice .. => false

/-- What may follow a node: after a text no other text, and no tag if it ends in a brace. -/
def Node.Joins (followed : Bool) (rest : List Node) : Node → Prop
  | .text s => (∀ n ∈ rest.head?, n.isText = false) ∧
    (followed = true ∨ rest.isEmpty = false → s.toList.getLast? ≠ some '\x7b')
  | .variable .. | .scope .. | .choice .. => True

instance (followed : Bool) (rest : List Node) : DecidablePred (Node.Joins followed rest)
  | .text _ => inferInstanceAs (Decidable (_ ∧ (_ → _)))
  | .variable .. | .scope .. | .choice .. => .isTrue trivial

mutual

/-- A node that its source can say. -/
def Node.IsCanonical : Node → Prop
  | .text s => s.toList ≠ [] ∧ ¬ "\x7b\x7b".toList <:+: s.toList
  | .variable p _ => p.isSpellable = true ∧ Token.FitTag p.tokens ∧
    ∀ c ∈ p.name.toList.head?, c ∉ ['#', '?', '/', '\x7b']
  | .scope name body orElse _ => IsSectionName name ∧
    Node.AllCanonical true body ∧ Node.AllCanonical true orElse
  | .choice test body orElse _ => (test.isSpellable = true ∧ test.depth ≤ 150 ∧
    Token.FitTag test.tokens) ∧ Node.AllCanonical true body ∧ Node.AllCanonical true orElse

/-- Nodes that their source can say, with a tag behind them or not. -/
def Node.AllCanonical (followed : Bool) : List Node → Prop
  | [] => True
  | n :: rest => n.IsCanonical ∧ n.Joins followed rest ∧ Node.AllCanonical followed rest

end

mutual

def Node.decideCanonical : (n : Node) → Decidable n.IsCanonical
  | .text _ => inferInstanceAs (Decidable (_ ∧ _))
  | .variable _ _ => inferInstanceAs (Decidable (_ ∧ _ ∧ _))
  | .scope _ body orElse _ =>
    have := Node.decideAllCanonical true body
    have := Node.decideAllCanonical true orElse
    inferInstanceAs (Decidable (_ ∧ _ ∧ _))
  | .choice _ body orElse _ =>
    have := Node.decideAllCanonical true body
    have := Node.decideAllCanonical true orElse
    inferInstanceAs (Decidable ((_ ∧ _ ∧ _) ∧ _ ∧ _))

def Node.decideAllCanonical (followed : Bool) :
    (tree : List Node) → Decidable (Node.AllCanonical followed tree)
  | [] => .isTrue trivial
  | n :: rest =>
    have := Node.decideCanonical n
    have := Node.decideAllCanonical followed rest
    inferInstanceAs (Decidable (_ ∧ _ ∧ _))

end

instance (followed : Bool) : DecidablePred (Node.AllCanonical followed) :=
  Node.decideAllCanonical followed

namespace Token

theorem hasVisibleEnds_spelling {t : Token} (h : t.IsCanonical) (hunbroken : t.IsUnbroken) :
    Text.HasVisibleEnds t.spelling := by
  have hdecide : ∀ text : List Char, text ≠ [] → (text.all fun c => !Text.isBlank c) = true →
      Text.HasVisibleEnds text := by
    intro text hne hall
    refine .of_visible hne fun c hc => ?_
    simpa using List.all_eq_true.mp hall c hc
  cases t with
  | word name => exact .of_visible h.nonempty hunbroken
  | text s =>
    have hquote : Text.HasVisibleEnds ['"'] := hdecide _ (by simp) rfl
    exact hquote.append (escapeText s.toList) hquote
  | int n =>
    obtain ⟨hchars, hlooks⟩ := spelling_int n
    refine .of_visible ?_ ?_
    · intro hnil
      rw [spelling] at hnil
      rw [hnil] at hlooks
      cases hlooks
    · intro c hc
      rcases hchars c hc with rfl | hdigit
      · rfl
      · have hlow : 48 ≤ c.toNat ∧ c.toNat ≤ 57 := by
          simpa [Char.isDigit, UInt32.le_iff_toNat_le] using hdigit
        simp [Text.isBlank]
        omega
  | float x => exact absurd h id
  | symbol s =>
    cases s with
    | comparator op => cases op <;> exact hdecide _ (by decide) (by decide)
    | pipe | opening | closing | comma => exact hdecide _ (by decide) (by decide)
  | connective op => cases op <;> exact hdecide _ (by decide) (by decide)
  | negation => exact hdecide _ (by decide) (by decide)

variable {ts : List Token}

theorem FitTag.tail {t : Token} (h : FitTag (t :: ts)) (hne : ts ≠ []) : FitTag ts := by
  obtain ⟨u, ts, rfl⟩ := List.exists_cons_of_ne_nil hne
  refine ⟨fun v hv => h.canonical v (List.mem_cons_of_mem t hv),
    fun v hv => h.unbroken v (List.mem_cons_of_mem t hv), fun hin => h.closed ?_⟩
  rw [Lexer.spell_cons_cons]
  exact (hin.trans (List.suffix_cons ' ' _).isInfix).trans (List.suffix_append _ _).isInfix

/-- White space around tokens can be told from them. -/
theorem FitTag.hasVisibleEnds (h : FitTag ts) (hne : ts ≠ []) :
    Text.HasVisibleEnds (spell ts) := by
  induction ts with
  | nil => exact absurd rfl hne
  | cons t ts ih =>
    have ht := hasVisibleEnds_spelling (h.canonical t List.mem_cons_self)
      (h.unbroken t List.mem_cons_self)
    cases ts with
    | nil =>
      have hspell : spell [t] = t.spelling := by simp [spell, List.intercalate]
      rwa [hspell]
    | cons u ts =>
      have hmore := ih (h.tail (List.cons_ne_nil u ts)) (List.cons_ne_nil u ts)
      rw [Lexer.spell_cons_cons]
      have happend := ht.append [' '] hmore
      rwa [List.append_assoc, List.singleton_append] at happend

end Token

theorem Condition.tokens_ne_nil {c : Condition} (h : c.isSpellable = true) : c.tokens ≠ [] := by
  rw [isSpellable, Bool.and_eq_true] at h
  obtain ⟨t, ts, hfirst, -⟩ := (Term.spells_tokens c.first h.1).exists_cons
  rw [Condition.tokens, hfirst]
  exact List.cons_ne_nil t _

theorem Pipeline.ofText_spell {p : Pipeline} (hp : p.isSpellable = true)
    (h : ∀ t ∈ p.tokens, t.IsCanonical) : Pipeline.ofText (spell p.tokens) = .ok p := by
  rw [ofText, Lexer.tokens_spell h]
  exact Parser.pipelineOfTokens_tokens hp

theorem Condition.ofText_spell {c : Condition} (hc : c.isSpellable = true) (hdepth : c.depth ≤ 150)
    (h : ∀ t ∈ c.tokens, t.IsCanonical) : Condition.ofText (spell c.tokens) = .ok c := by
  rw [ofText_of_tokens (Lexer.tokens_spell h)]
  exact (Parser.conditionOfTokens_tokens hc).trans (if_pos hdepth)

/-- The source of a pipeline starts with its name. -/
theorem Pipeline.head?_spell {p : Pipeline} (hne : p.name.toList ≠ []) :
    (spell p.tokens).head? = p.name.toList.head? := by
  obtain ⟨c, cs, hcs⟩ := List.exists_cons_of_ne_nil hne
  rw [Pipeline.tokens]
  cases p.filters.flatMap FilterCall.tokens with
  | nil => simp [spell, List.intercalate, Token.spelling]
  | cons t ts =>
    rw [Lexer.spell_cons_cons, Token.spelling, hcs]
    rfl

namespace Tag

theorem trim_spaced {text : List Char} (h : Text.HasVisibleEnds text) :
    Text.trim ([' '] ++ text ++ [' ']) = text := by
  rw [Text.trim_append_blank rfl, List.singleton_append, Text.trim_cons_blank rfl, h.trim_eq]

theorem spells_variable {p : Pipeline} (hp : p.isSpellable = true) (h : Token.FitTag p.tokens)
    (hhead : ∀ c ∈ p.name.toList.head?, c ∉ ['#', '?', '/', '\x7b']) (raw : Bool) :
    Spells raw ([' '] ++ spell p.tokens ++ [' ']) (.variable p raw) := by
  have hname : (Token.word p.name).IsCanonical := h.canonical _ List.mem_cons_self
  have hends := h.hasVisibleEnds (List.cons_ne_nil _ _)
  have hread := Pipeline.ofText_spell hp h.canonical
  have hfirst := Pipeline.head?_spell hname.nonempty
  rw [← trim_spaced hends] at hread
  cases raw with
  | true => exact .raw hread
  | false =>
    refine .plain ?_ hread
    rw [trim_spaced hends]
    refine ⟨?_, ?_, ?_⟩
    · intro hnil
      rw [hnil] at hfirst
      exact hname.nonempty (List.head?_eq_none_iff.mp hfirst.symm)
    · intro c hc hmark
      rw [hfirst] at hc
      have hbang : c ≠ '!' := by
        rintro rfl
        exact hname.plain '!' (List.mem_of_mem_head? hc) (by decide)
      have hnot := hhead c hc
      simp only [List.mem_cons, List.not_mem_nil, or_false, not_or] at hnot hmark
      rcases hmark with rfl | rfl | rfl | rfl
      · exact hbang rfl
      · exact hnot.1 rfl
      · exact hnot.2.1 rfl
      · exact hnot.2.2.1 rfl
    · intro middle heq
      rw [heq] at hfirst
      exact hhead '\x7b' hfirst.symm (by decide)

theorem trim_marked {name : String} (h : IsSectionName name) {c : Char}
    (hc : Text.isBlank c = false) :
    Text.trim ([c] ++ name.toList ++ [' ']) = c :: name.toList := by
  have hends := Text.HasVisibleEnds.of_trim_eq h.nonempty h.trimmed
  rw [Text.trim_append_blank rfl, List.singleton_append, (hends.cons hc).trim_eq]

theorem spells_opening {name : String} (h : IsSectionName name) :
    Spells false (['#'] ++ name.toList ++ [' ']) (.opening name) := by
  have hne : Text.trim name.toList ≠ [] := by
    rw [h.trimmed]
    exact h.nonempty
  have hspells := Spells.opening (trim_marked h rfl) hne
  rwa [h.trimmed, String.ofList_toList] at hspells

theorem spells_closing {name : String} (h : IsSectionName name) :
    Spells false (['/'] ++ name.toList ++ [' ']) (.closing name) := by
  have hspells := Spells.closing (trim_marked h rfl)
  rwa [h.trimmed, String.ofList_toList] at hspells

theorem spells_test {c : Condition} (hc : c.isSpellable = true) (hdepth : c.depth ≤ 150)
    (h : Token.FitTag c.tokens) :
    Spells false ("?if ".toList ++ spell c.tokens ++ [' ']) (.test c) := by
  have hends := h.hasVisibleEnds (Condition.tokens_ne_nil hc)
  have hword : Text.HasVisibleEnds "?if".toList := .of_visible (by decide) (by decide)
  have hall : Text.HasVisibleEnds ("?if".toList ++ (' ' :: spell c.tokens)) := by
    have happend := hword.append [' '] hends
    rwa [List.append_assoc] at happend
  have hinner : Text.trim ("?if ".toList ++ spell c.tokens ++ [' ']) =
      "?if".toList ++ (' ' :: spell c.tokens) := by
    rw [Text.trim_append_blank rfl]
    exact hall.trim_eq
  refine .test hinner (by simp [EndsWord, Text.isBlank]) ?_
  rw [Text.trim_cons_blank rfl, hends.trim_eq]
  exact Condition.ofText_spell hc hdepth h.canonical

theorem spells_otherwise : Spells false "?else".toList .otherwise := .otherwise (by decide)

end Tag

end Stencil
