import Stencil.Expr.Printer
import Stencil.Proofs.Decimal.Integer
import Stencil.Proofs.Expr.Cutting

/-! # Tokens and their spelling

Tokens that are written one space apart are cut into the same tokens again: names that no
keyword and no number looks like, texts of any content, and integers.
-/
namespace Stencil

section

variable {p : Char → Prop} [DecidablePred p]

-- only the characters at hand are tried, where an instance for the type would try all there are
instance decidableForallMem (text : List Char) : Decidable (∀ c ∈ text, p c) :=
  List.decidableBAll p text

instance decidableForallSome (c? : Option Char) : Decidable (∀ c ∈ c?, p c) :=
  decidable_of_iff (∀ c ∈ c?.toList, p c) (by simp)

end

namespace Token

/-- A word that is read as a name. -/
structure IsName (w : List Char) : Prop where
  nonempty : w ≠ []
  plain : ∀ c ∈ w, c ∉ Lexer.separators
  word : ofWord w = .word (String.ofList w)

/-- A token that is read from its spelling. -/
def IsCanonical : Token → Prop
  | .word name => IsName name.toList
  | .float _ => False
  | .text _ | .int _ | .symbol _ | .connective _ | .negation => True

instance (w : List Char) : Decidable (IsName w) :=
  decidable_of_iff (w ≠ [] ∧ (∀ c ∈ w, c ∉ Lexer.separators) ∧ ofWord w = .word (String.ofList w))
    ⟨fun h => ⟨h.1, h.2.1, h.2.2⟩, fun h => ⟨h.nonempty, h.plain, h.word⟩⟩

instance : DecidablePred IsCanonical
  | .word name => inferInstanceAs (Decidable (IsName name.toList))
  | .float _ => .isFalse id
  | .text _ | .int _ | .symbol _ | .connective _ | .negation => .isTrue trivial

theorem ofWord_int {w : List Char} {n : Int64} (hlooks : looksNumeric w = true)
    (hread : readInt64? w = some n) : ofWord w = .int n := by
  have hkeyword : ∀ keyword : String, looksNumeric keyword.toList = false →
      String.ofList w ≠ keyword := by
    rintro keyword hk rfl
    rw [String.toList_ofList, hlooks] at hk
    cases hk
  rw [ofWord, if_neg (hkeyword "and" rfl), if_neg (hkeyword "or" rfl),
    if_neg (hkeyword "not" rfl), if_pos hlooks, hread]

theorem eq_of_ofWord_word {w : List Char} {name : String} (h : ofWord w = .word name) :
    name = String.ofList w := by
  unfold ofWord at h
  dsimp only at h
  split at h
  · cases h
  · split at h
    · cases h
    · split at h
      · cases h
      · split at h
        · split at h
          · cases h
          · split at h
            · cases h
            · exact (Token.word.inj h).symm
        · exact (Token.word.inj h).symm

/-- The words that are neither keywords nor numbers. -/
theorem ofWord_eq_word_iff {w : List Char} : ofWord w = .word (String.ofList w) ↔
    w ∉ ["and".toList, "or".toList, "not".toList] ∧
      (looksNumeric w = true → readInt64? w = none ∧ readFloat? w = none) := by
  have hkeyword : ∀ keyword : String, String.ofList w = keyword ↔ w = keyword.toList := by
    intro keyword
    rw [← String.toList_inj, String.toList_ofList]
  simp only [ofWord, hkeyword, List.mem_cons, List.not_mem_nil, or_false, not_or]
  by_cases hand : w = "and".toList
  · simp [hand]
  by_cases hor : w = "or".toList
  · simp [hor]
  by_cases hnot : w = "not".toList
  · simp [hnot]
  rw [if_neg hand, if_neg hor, if_neg hnot]
  cases looksNumeric w with
  | false => simpa using And.intro hand (And.intro hor hnot)
  | true =>
    cases readInt64? w with
    | some n => simp
    | none =>
      cases readFloat? w with
      | some x => simp
      | none => simpa using And.intro hand (And.intro hor hnot)

/-- What a name is: no space, sign or quote is in it, and it is neither a keyword nor a number. -/
theorem isName_iff {w : List Char} : IsName w ↔
    w ≠ [] ∧ (∀ c ∈ w, c ∉ Lexer.separators) ∧ w ∉ ["and".toList, "or".toList, "not".toList] ∧
      (looksNumeric w = true → readInt64? w = none ∧ readFloat? w = none) := by
  rw [← ofWord_eq_word_iff]
  exact ⟨fun h => ⟨h.nonempty, h.plain, h.word⟩, fun h => ⟨h.1, h.2.1, h.2.2⟩⟩

/-- What an integer is written with: digits, and perhaps a sign in front of them. -/
theorem spelling_int (n : Int64) :
    (∀ c ∈ (toString n.toInt).toList, c = '-' ∨ c.isDigit = true) ∧
      looksNumeric (toString n.toInt).toList = true := by
  have hdigit : ∀ m c, c ∈ Nat.toDigits 10 m → c.isDigit = true :=
    fun m c hc => Nat.isDigit_of_mem_toDigits (by decide) (by decide) hc
  obtain ⟨m, ⟨-, hm⟩ | ⟨-, hm⟩⟩ := toString_int_cases n.toInt
  · obtain ⟨d, ds, hds⟩ := List.exists_cons_of_ne_nil (Nat.toDigits_ne_nil (n := m) (b := 10))
    have hd : isDigit d = true := hdigit m d (by rw [hds]; exact List.mem_cons_self)
    rw [hm]
    refine ⟨fun c hc => Or.inr (hdigit m c hc), ?_⟩
    rw [hds]
    simp [looksNumeric, hd]
  · obtain ⟨d, ds, hds⟩ := List.exists_cons_of_ne_nil (Nat.toDigits_ne_nil (n := m) (b := 10))
    have hd : isDigit d = true := hdigit m d (by rw [hds]; exact List.mem_cons_self)
    rw [hm]
    refine ⟨?_, ?_⟩
    · intro c hc
      rcases List.mem_cons.mp hc with rfl | hc
      · exact Or.inl rfl
      · exact Or.inr (hdigit m c hc)
    · rw [hds]
      simp [looksNumeric, hd]

/-- Hiding quotes and backslashes loses nothing. -/
theorem unescape_escapeText (s : List Char) : unescape (escapeText s) = s := by
  induction s with
  | nil => rfl
  | cons c s ih =>
    unfold escapeText at ih ⊢
    rw [List.flatMap_cons]
    by_cases hquote : c = '"'
    · subst hquote
      rw [if_pos (Or.inl rfl)]
      exact congrArg (List.cons '"') ih
    · by_cases hslash : c = '\\'
      · subst hslash
        rw [if_pos (Or.inr rfl)]
        exact congrArg (List.cons '\\') ih
      · rw [if_neg (not_or.mpr ⟨hquote, hslash⟩), List.singleton_append, unescape, ih]
        · exact fun _ h => absurd h hslash
        · exact fun _ h => absurd h hslash

theorem not_separator_of_numeral {c : Char} (h : c = '-' ∨ c.isDigit = true) :
    c ∉ Lexer.separators := by
  intro hc
  simp only [Lexer.separators, List.mem_cons, List.not_mem_nil, or_false] at hc
  rcases hc with rfl | rfl | rfl | rfl | rfl | rfl | rfl | rfl | rfl | rfl | rfl <;>
    exact absurd h (by decide)

end Token

namespace Lexer

/-- The end of an expression, or a space between two tokens. -/
def EndsToken (rest : List Char) : Prop := ∀ c ∈ rest.head?, c = ' '

variable {rest : List Char}

theorem EndsToken.separates (h : EndsToken rest) : ∀ c ∈ rest.head?, c ∈ separators := by
  intro c hc
  rw [h c hc]
  exact List.mem_cons_self

theorem body_escapeText (s : List Char) : Body (Token.escapeText s) := by
  induction s with
  | nil => exact .nil
  | cons c s ih =>
    have hcons : Token.escapeText (c :: s) =
        (if c = '"' ∨ c = '\\' then ['\\', c] else [c]) ++ Token.escapeText s := List.flatMap_cons
    rw [hcons]
    by_cases hc : c = '"' ∨ c = '\\'
    · rw [if_pos hc]
      exact .hidden ih
    · rw [if_neg hc]
      rw [not_or] at hc
      exact .plain hc.1 hc.2 ih

/-- What is spelled as a word is cut off as that word. -/
theorem cut_word {w : List Char} {t : Token} (hne : w ≠ []) (hplain : ∀ c ∈ w, c ∉ separators)
    (hword : Token.ofWord w = t) (hrest : EndsToken rest) :
    ∃ piece, Lexeme.token? piece = some t ∧ Cut (w ++ rest) piece rest :=
  ⟨.word w, congrArg some hword, .word hne hplain hrest.separates⟩

/-- The spelling of a token is cut off as one piece that spells the token. -/
theorem cut_spelling {t : Token} (ht : t.IsCanonical) (hrest : EndsToken rest) :
    ∃ piece, Lexeme.token? piece = some t ∧ Cut (t.spelling ++ rest) piece rest := by
  cases t with
  | word name =>
    have hword : Token.ofWord name.toList = .word name := by rw [ht.word, String.ofList_toList]
    exact cut_word ht.nonempty ht.plain hword hrest
  | text s =>
    have htoken : Lexeme.token? (.quoted (Token.escapeText s.toList) true) = some (.text s) := by
      rw [Lexeme.token?, Token.unescape_escapeText, String.ofList_toList]
    have hcut : Cut _ (.quoted _ true) rest := .quoted (body_escapeText s.toList)
    refine ⟨_, htoken, ?_⟩
    simpa [Token.spelling] using hcut
  | int n =>
    obtain ⟨hchars, hlooks⟩ := Token.spelling_int n
    have hplain : ∀ c ∈ (toString n.toInt).toList, c ∉ separators :=
      fun c hc => Token.not_separator_of_numeral (hchars c hc)
    have hne : (toString n.toInt).toList ≠ [] := by
      intro hnil
      rw [hnil] at hlooks
      cases hlooks
    have hword := Token.ofWord_int hlooks (readInt64?_toString n)
    exact cut_word hne hplain hword hrest
  | float x => exact absurd ht id
  | symbol s =>
    have hequals : rest.head? ≠ some '=' := fun h => absurd (hrest '=' h) (by decide)
    exact ⟨.symbol s, rfl, .symbol s fun _ => hequals⟩
  | connective op =>
    cases op with
    | and => exact cut_word (by decide) (by decide) (by decide) hrest
    | or => exact cut_word (by decide) (by decide) (by decide) hrest
  | negation => exact cut_word (by decide) (by decide) (by decide) hrest

theorem spell_cons_cons (t u : Token) (ts : List Token) :
    spell (t :: u :: ts) = t.spelling ++ ' ' :: spell (u :: ts) := by
  simp [spell, List.intercalate]

theorem cuts_spell {ts : List Token} (h : ∀ t ∈ ts, t.IsCanonical) :
    ∃ pieces, Cuts (spell ts) pieces [] ∧ pieces.filterMap Lexeme.token? = ts := by
  induction ts with
  | nil => exact ⟨[], .nil, rfl⟩
  | cons t ts ih =>
    have ht := h t List.mem_cons_self
    cases ts with
    | nil =>
      have hends : EndsToken [] := by simp [EndsToken]
      obtain ⟨piece, hpiece, hcut⟩ := cut_spelling ht hends
      have hspell : spell [t] = t.spelling ++ [] := by simp [spell, List.intercalate]
      refine ⟨[piece], hspell ▸ .cons hcut .nil, ?_⟩
      rw [List.filterMap_cons_some hpiece, List.filterMap_nil]
    | cons u ts =>
      have hends : EndsToken (' ' :: spell (u :: ts)) := by simp [EndsToken]
      obtain ⟨piece, hpiece, hcut⟩ := cut_spelling ht hends
      obtain ⟨pieces, hcuts, hts⟩ := ih fun v hv => h v (List.mem_cons_of_mem t hv)
      have hblank : Cuts (' ' :: spell (u :: ts)) (.blank ' ' :: pieces) [] :=
        .cons (.blank (Or.inl rfl)) hcuts
      refine ⟨piece :: .blank ' ' :: pieces, spell_cons_cons t u ts ▸ .cons hcut hblank, ?_⟩
      rw [List.filterMap_cons_some hpiece, List.filterMap_cons_none rfl, hts]

theorem tokens_spell {ts : List Token} (h : ∀ t ∈ ts, t.IsCanonical) :
    tokens (spell ts) = .ok ts := by
  obtain ⟨pieces, hcuts, hts⟩ := cuts_spell h
  exact tokens_eq_ok_iff.mpr ⟨pieces, hcuts, hts⟩

/-- A word that an expression is found to contain is a name. -/
theorem isName_of_tokens {text : List Char} {ts : List Token} (h : tokens text = .ok ts)
    {name : String} (hname : .word name ∈ ts) : Token.IsName name.toList := by
  obtain ⟨pieces, hcuts, rfl⟩ := tokens_eq_ok_iff.mp h
  obtain ⟨piece, hmem, htoken⟩ := List.mem_filterMap.mp hname
  obtain ⟨before, behind, hcut⟩ := hcuts.exists_cut hmem
  cases hcut with
  | blank => cases htoken
  | @word w _ hne hplain _ =>
    have hword : Token.ofWord w = .word name := Option.some.inj htoken
    obtain rfl := Token.eq_of_ofWord_word hword
    rw [String.toList_ofList]
    exact ⟨hne, hplain, hword⟩
  | symbol => cases htoken
  | quoted => cases htoken
  | unclosed => cases htoken

/-- What an expression was cut into is cut again from its spelling, if no number in it is a
float. -/
theorem isCanonical_of_tokens {text : List Char} {ts : List Token} (h : tokens text = .ok ts)
    (hfloat : ∀ x, .float x ∉ ts) : ∀ t ∈ ts, t.IsCanonical := by
  intro t ht
  cases t with
  | word name => exact isName_of_tokens h ht
  | float x => exact absurd ht (hfloat x)
  | text | int | symbol | connective | negation => trivial

/-- Canonical tokens are read from their spelling, and all tokens that are read from a text are
canonical but for the floats: spelled, they are read again. The words of canonical tokens are those
without separators that are neither keywords nor numbers. -/
theorem spelling_round_trip :
    (∀ w, Token.IsName w ↔ w ≠ [] ∧ (∀ c ∈ w, c ∉ separators) ∧
      w ∉ ["and".toList, "or".toList, "not".toList] ∧
      (Token.looksNumeric w = true → readInt64? w = none ∧ readFloat? w = none)) ∧
    (∀ ts : List Token, (∀ t ∈ ts, t.IsCanonical) → tokens (spell ts) = .ok ts) ∧
    (∀ text ts, tokens text = .ok ts → ∀ name, .word name ∈ ts → Token.IsName name.toList) ∧
    ∀ text ts, tokens text = .ok ts → (∀ x, .float x ∉ ts) → tokens (spell ts) = .ok ts :=
  ⟨fun _ => Token.isName_iff, fun _ => tokens_spell, fun _ _ h _ => isName_of_tokens h,
    fun _ _ h hfloat => tokens_spell (isCanonical_of_tokens h hfloat)⟩

/-- The least integer and a text of hidden characters, and an expression whose literal is open. -/
theorem spelling_round_trip_open :
    let ts : List Token := [.word ".index1", .symbol (.comparator .le),
      .int (-9223372036854775808), .connective .or, .negation, .text "\\\" \\"]
    let text := "naïve<=\"a\\\"b\\".toList
    let us : List Token := [.word "naïve", .symbol (.comparator .le), .text "a\"b\\"]
    (∀ t ∈ ts, t.IsCanonical) ∧ tokens (spell ts) = .ok ts ∧
    tokens text = .ok us ∧ .word "naïve" ∈ us ∧ Token.IsName "naïve".toList ∧
    (∀ x, .float x ∉ us) ∧ tokens (spell us) = .ok us := by
  intro ts text us
  have hts : ∀ t ∈ ts, t.IsCanonical := by decide
  have htext : tokens text = .ok us := by rfl
  have hname : .word "naïve" ∈ us := List.mem_cons_self
  have hfloat : ∀ x, .float x ∉ us := by simp [us]
  exact ⟨hts, spelling_round_trip.2.1 ts hts, htext, hname,
    spelling_round_trip.2.2.1 text us htext _ hname, hfloat,
    spelling_round_trip.2.2.2 text us htext hfloat⟩

end Lexer

end Stencil
