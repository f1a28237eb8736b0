import Stencil.Proofs.Text.Encoding
import Stencil.Proofs.Text.Escaping

/-! # Entities

Escaping replaces five characters and nothing else, and decoding the entities from left to right gives
the text back, also where the text looked like an entity before. The pieces are those of a loop over
the bytes of the text that remembers where the bytes begin that are not written yet: every character
that is replaced is a byte of its own, and no byte of another character is like one.
-/
namespace Stencil.Text

/-- The characters that are replaced, and by what. -/
def replacements : List (Char × String) :=
  [('"', "&quot;"), ('\'', "&apos;"), ('&', "&amp;"), ('<', "&lt;"), ('>', "&gt;")]

def replace (c : Char) : List Char :=
  match replacements.lookup c with
  | some e => e.toList
  | none => [c]

theorem entity?_eq_lookup (c : Char) : entity? c = replacements.lookup c := by
  have hcons (d : Char) (e : String) (rest : List (Char × String)) :
      ((d, e) :: rest).lookup c = if c = d then some e else rest.lookup c := by
    by_cases h : c = d
    · simp [h]
    · have hne : (c == d) = false := by simpa using h
      simp [List.lookup_cons, hne, h]
  simp only [entity?, replacements, hcons, List.lookup_nil]

theorem escapeChar_eq_replace (c : Char) : escapeChar c = replace c := by
  rw [escapeChar, replace, entity?_eq_lookup]
  cases replacements.lookup c <;> rfl

/-- The text that an escaped text stands for: from left to right, entities are their characters, and
everything else is itself. -/
def decodeEntities : List Char → List Char
  | '&' :: 'q' :: 'u' :: 'o' :: 't' :: ';' :: rest => '"' :: decodeEntities rest
  | '&' :: 'a' :: 'p' :: 'o' :: 's' :: ';' :: rest => '\'' :: decodeEntities rest
  | '&' :: 'a' :: 'm' :: 'p' :: ';' :: rest => '&' :: decodeEntities rest
  | '&' :: 'l' :: 't' :: ';' :: rest => '<' :: decodeEntities rest
  | '&' :: 'g' :: 't' :: ';' :: rest => '>' :: decodeEntities rest
  | c :: rest => c :: decodeEntities rest
  | [] => []

theorem decodeEntities_cons {c : Char} (h : c ≠ '&') (rest : List Char) :
    decodeEntities (c :: rest) = c :: decodeEntities rest := by
  rw [decodeEntities.eq_def]
  split <;> simp_all

/-- What stands behind an entity is decoded on its own. -/
theorem decodeEntities_entity {c : Char} {e : String} (h : entity? c = some e) (rest : List Char) :
    decodeEntities (e.toList ++ rest) = c :: decodeEntities rest := by
  unfold entity? at h
  split_ifs at h with hquot hapos hamp hlt hgt <;> cases h <;> subst_vars <;> rfl

theorem decodeEntities_flatMap (text : List Char) :
    decodeEntities (text.flatMap escapeChar) = text := by
  induction text with
  | nil => rfl
  | cons c rest ih =>
    rw [List.flatMap_cons, escapeChar]
    cases h : entity? c with
    | some e =>
      have hrest := decodeEntities_entity h (rest.flatMap escapeChar)
      rw [ih] at hrest
      exact hrest
    | none =>
      have hamp : c ≠ '&' := by
        rintro rfl
        cases h
      have hrest := decodeEntities_cons hamp (rest.flatMap escapeChar)
      rw [ih] at hrest
      exact hrest

/-- A step of the loop over bytes: a slice of them is copied, or an entity is written. -/
inductive EscapeStep where
  | copy (start stop : Nat)
  | entity (e : String)

def EscapeStep.bytes (source : List UInt8) : EscapeStep → List UInt8
  | copy start stop => (source.take stop).drop start
  | entity e => encode e.toList

/-- Copies what is not written yet, if there is anything. -/
def copyStep (start stop : Nat) : List EscapeStep :=
  if start < stop then [.copy start stop] else []

/-- The loop over the bytes that are left, where `i` is the place of the next one and `start` the place
of the first one that is not written yet. -/
def escapeSteps (start i : Nat) : List UInt8 → List EscapeStep
  | [] => copyStep start i
  | b :: rest => match entity? (Char.ofNat b.toNat) with
    | none => escapeSteps start (i + 1) rest
    | some e => copyStep start i ++ .entity e :: escapeSteps (i + 1) (i + 1) rest

theorem entity?_of_le {c : Char} (h : 0x80 ≤ c.toNat) : entity? c = none := by
  have hsmall : ∀ r ∈ replacements, r.1.toNat < 0x80 := by decide
  rw [entity?_eq_lookup, List.lookup_eq_none_iff]
  intro r hr
  refine bne_iff_ne.mpr fun heq => ?_
  have hlt := hsmall r hr
  rw [← heq] at hlt
  omega

/-- No byte of a character that needs more than one is one that is replaced. -/
theorem entity?_of_mem_encodeChar {c : Char} (hc : entity? c = none) {b : UInt8}
    (hb : b ∈ encodeChar c) : entity? (Char.ofNat b.toNat) = none := by
  rcases alone_of_mem_encodeChar hb with h | h
  · exact (congrArg entity? h).trans hc
  · exact entity?_of_le h

theorem encodeChar_of_entity? {c : Char} {e : String} (h : entity? c = some e) :
    ∃ b, encodeChar c = [b] ∧ Char.ofNat b.toNat = c := by
  refine encodeChar_of_lt (Nat.lt_of_not_le fun hle => ?_)
  rw [entity?_of_le hle] at h
  cases h

theorem escapeSteps_plain {bytes : List UInt8}
    (h : ∀ b ∈ bytes, entity? (Char.ofNat b.toNat) = none) (start i : Nat) (rest : List UInt8) :
    escapeSteps start i (bytes ++ rest) = escapeSteps start (i + bytes.length) rest := by
  induction bytes generalizing i with
  | nil => rfl
  | cons b more ih =>
    obtain ⟨hb, hmore⟩ := List.forall_mem_cons.mp h
    rw [List.cons_append, escapeSteps, hb, List.length_cons, Nat.add_comm more.length,
      ← Nat.add_assoc]
    exact ih hmore (i + 1)

theorem flush_eq_append (run : List Char) (pieces : List String) :
    flush run pieces = flush run [] ++ pieces := by
  unfold flush
  split <;> rfl

/-- What is copied is the run in front, which may be empty. -/
theorem map_bytes_copyStep (front behind : List UInt8) (run : List Char) :
    (copyStep front.length (front.length + (encode run).length)).map
      (EscapeStep.bytes (front ++ encode run ++ behind)) =
    (flush run.reverse []).map fun piece => encode piece.toList := by
  by_cases hrun : run = []
  · subst hrun
    simp [copyStep, flush, encode]
  · have hlength := length_encode_pos hrun
    rw [copyStep, if_pos (by omega), flush, if_neg (by simpa using hrun)]
    simp [EscapeStep.bytes, List.take_append]

/-- The loop writes what is collected over the characters: `front` is written already, and the bytes
of `run` are those between the two places that the loop remembers. -/
theorem map_bytes_escapeSteps (front : List UInt8) (run rest : List Char) :
    (escapeSteps front.length (front.length + (encode run).length) (encode rest)).map
      (EscapeStep.bytes (front ++ encode run ++ encode rest)) =
    (piecesAfter run.reverse rest).map fun piece => encode piece.toList := by
  induction rest generalizing front run with
  | nil => exact map_bytes_copyStep front [] run
  | cons c rest ih =>
    rw [piecesAfter, encode_cons]
    cases h : entity? c with
    | none =>
      have hrun : encode (run ++ [c]) = encode run ++ encodeChar c := by simp [encode]
      rw [escapeSteps_plain (fun b => entity?_of_mem_encodeChar h), Nat.add_assoc,
        ← List.length_append, ← hrun, ← List.append_assoc, List.append_assoc front, ← hrun, ih]
      simp
    | some e =>
      obtain ⟨b, hb, hc⟩ := encodeChar_of_entity? h
      -- behind the entity nothing is left to copy
      have hnext := ih (front ++ encode run ++ [b]) []
      have hplace : (front ++ encode run ++ [b]).length = front.length + (encode run).length + 1 := by
        simp only [List.length_append, List.length_singleton]
      have hsource : front ++ encode run ++ [b] ++ encode [] ++ encode rest =
          front ++ encode run ++ b :: encode rest := by simp [encode]
      have hempty : (encode []).length = 0 := rfl
      rw [hempty, Nat.add_zero, hplace, hsource] at hnext
      rw [hb, List.singleton_append, escapeSteps, hc, h]
      show ((copyStep _ _ ++ _).map _) = (flush run.reverse (e :: piecesAfter [] rest)).map _
      rw [flush_eq_append, List.map_append, List.map_append, map_bytes_copyStep, List.map_cons,
        List.map_cons, hnext]
      rfl

/-- Escaping replaces five characters, and the others stay as they are and where they are: the pieces
are those of the loop over the bytes, and put together they are the text with each character replaced.
No character of markup is left and an ampersand begins an entity, texts may be escaped one by one, and
decoding gives back what was escaped, so different texts stay different. -/
theorem escape_reversible (s t : String) :
    ((escapeSteps 0 0 (encode s.toList)).map (EscapeStep.bytes (encode s.toList)) =
      (escapePieces s).map fun piece => encode piece.toList) ∧
    (String.join (escapePieces s)).toList = s.toList.flatMap replace ∧
    IsEscaped (escape s).toList ∧
    escape (s ++ t) = escape s ++ escape t ∧
    decodeEntities (escape s).toList = s.toList ∧
    (escape s = escape t ↔ s = t) := by
  have hreplace : escapeChar = replace := funext escapeChar_eq_replace
  have hdecode (u : String) : decodeEntities (escape u).toList = u.toList := by
    rw [toList_escape, decodeEntities_flatMap]
  refine ⟨?_, ?_, isEscaped_escape s, ?_, hdecode s, ?_, congrArg escape⟩
  · exact map_bytes_escapeSteps [] [] s.toList
  · rw [← hreplace]
    exact toList_escape s
  · rw [← String.toList_inj, String.toList_append, toList_escape, toList_escape, toList_escape,
      String.toList_append, List.flatMap_append]
  · intro h
    rw [← String.toList_inj, ← hdecode s, ← hdecode t, h]

end Stencil.Text
