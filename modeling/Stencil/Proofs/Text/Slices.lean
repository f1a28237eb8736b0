import Stencil.Proofs.Text.Entities

/-! # Slices of a text

A slice of a text is asked for by two places that are counted in bytes, and there is none if one of
them is inside a character. The loop that escapes a text looks at bytes only, and nevertheless all
its slices can be made.
-/
namespace Stencil.Text

/-- A place in a text, counted in bytes, that is between two characters or at an end. -/
def IsBoundary (text : List Char) (place : Nat) : Prop :=
  (⟨place⟩ : String.Pos.Raw).IsValid (String.ofList text)

instance (text : List Char) (place : Nat) : Decidable (IsBoundary text place) :=
  inferInstanceAs (Decidable (String.Pos.Raw.IsValid _ _))

/-- The characters in front of a place. -/
def upTo : Nat → List Char → List Char
  | _, [] => []
  | place, c :: rest => if c.utf8Size ≤ place then c :: upTo (place - c.utf8Size) rest else []

/-- The text from one place up to another. There is none unless the places are in order and are
boundaries, which also keeps them inside the text. -/
def slice? (text : List Char) (start stop : Nat) : Option (List Char) :=
  if start ≤ stop ∧ IsBoundary text start ∧ IsBoundary text stop then
    some ((upTo stop text).drop (upTo start text).length)
  else none

variable {text front middle back : List Char} {place start stop : Nat}

theorem utf8ByteSize_ofList (text : List Char) :
    (String.ofList text).utf8ByteSize = (encode text).length := by
  have h := congrArg List.length (encode_toList (String.ofList text))
  rw [String.toList_ofList] at h
  exact h.symm

theorem isBoundary_iff :
    IsBoundary text place ↔ ∃ front back, text = front ++ back ∧ place = (encode front).length := by
  unfold IsBoundary
  rw [String.Pos.Raw.isValid_ofList]
  constructor
  · rintro ⟨i, hi⟩
    exact ⟨text.take i, text.drop i, (List.take_append_drop i text).symm, by
      rw [← utf8ByteSize_ofList, ← hi]⟩
  · rintro ⟨front, back, rfl, rfl⟩
    exact ⟨front.length, by rw [List.take_left, utf8ByteSize_ofList]⟩

theorem IsBoundary.le (h : IsBoundary text place) : place ≤ (encode text).length := by
  obtain ⟨front, back, rfl, rfl⟩ := isBoundary_iff.mp h
  simp [encode_append]

theorem upTo_length_encode (front back : List Char) :
    upTo (encode front).length (front ++ back) = front := by
  induction front with
  | nil =>
    cases back with
    | nil => rfl
    | cons c back =>
      have hpos := c.utf8Size_pos
      have hzero : (encode []).length = 0 := rfl
      rw [List.nil_append, upTo, if_neg (by omega)]
  | cons c front ih =>
    rw [List.cons_append, upTo, length_encode_cons, if_pos (Nat.le_add_right _ _),
      Nat.add_sub_cancel_left, ih]

/-- Places with whole characters in front of them and between them have a slice. -/
theorem slice?_eq (htext : text = front ++ (middle ++ back)) (hstart : start = (encode front).length)
    (hstop : stop = (encode (front ++ middle)).length) : slice? text start stop = some middle := by
  subst htext hstart hstop
  have hle : (encode front).length ≤ (encode (front ++ middle)).length := by simp [encode_append]
  have hstart : IsBoundary (front ++ (middle ++ back)) (encode front).length :=
    isBoundary_iff.mpr ⟨front, _, rfl, rfl⟩
  have hstop : IsBoundary (front ++ (middle ++ back)) (encode (front ++ middle)).length :=
    isBoundary_iff.mpr ⟨front ++ middle, back, by simp, rfl⟩
  have hupTo := upTo_length_encode (front ++ middle) back
  rw [List.append_assoc] at hupTo
  rw [slice?, if_pos ⟨hle, hstart, hstop⟩, upTo_length_encode, hupTo, List.drop_left]

/-- Two boundaries in order have a text in front of them and a text between them. -/
theorem IsBoundary.exists_middle (hstart : IsBoundary text start) (hstop : IsBoundary text stop)
    (hle : start ≤ stop) : ∃ front middle back, text = front ++ (middle ++ back) ∧
      start = (encode front).length ∧ stop = (encode (front ++ middle)).length := by
  obtain ⟨front, behind, rfl, rfl⟩ := isBoundary_iff.mp hstart
  obtain ⟨longer, back, heq, rfl⟩ := isBoundary_iff.mp hstop
  rcases List.append_eq_append_iff.mp heq with ⟨middle, rfl, rfl⟩ | ⟨middle, rfl, rfl⟩
  · exact ⟨front, middle, back, rfl, rfl, rfl⟩
  · -- the front that ends later is not the longer one, unless the two are equal
    have hnil : middle = [] := by
      rw [encode_append, List.length_append] at hle
      exact encode_eq_nil_iff.mp (List.eq_nil_of_length_eq_zero (by omega))
    subst hnil
    exact ⟨longer, [], behind, by simp, by simp, by simp⟩

/-- A slice is made if its places are in order, inside the text, and at boundaries, and consists
of the bytes between them. -/
theorem slice?_eq_some_iff : slice? text start stop = some middle ↔
    start ≤ stop ∧ stop ≤ (encode text).length ∧ IsBoundary text start ∧ IsBoundary text stop ∧
      encode middle = ((encode text).take stop).drop start := by
  have hbytes (front middle back : List Char) :
      ((encode (front ++ (middle ++ back))).take (encode (front ++ middle)).length).drop
        (encode front).length = encode middle := by
    rw [← List.append_assoc, encode_append _ back, List.take_left, encode_append, List.drop_left]
  constructor
  · intro h
    unfold slice? at h
    split at h
    · rename_i hcond
      obtain ⟨hle, hstart, hstop⟩ := hcond
      obtain ⟨front, between, back, rfl, rfl, rfl⟩ := hstart.exists_middle hstop hle
      obtain rfl : between = middle := by
        have hslice := slice?_eq (rfl : front ++ (between ++ back) = _) rfl rfl
        rw [slice?, if_pos ⟨hle, hstart, hstop⟩, h] at hslice
        exact (Option.some.inj hslice).symm
      exact ⟨hle, hstop.le, hstart, hstop, (hbytes front between back).symm⟩
    · cases h
  · rintro ⟨hle, -, hstart, hstop, hmiddle⟩
    obtain ⟨front, between, back, rfl, rfl, rfl⟩ := hstart.exists_middle hstop hle
    rw [hbytes] at hmiddle
    rw [encode_injective hmiddle]
    exact slice?_eq rfl rfl rfl

example : slice? "aéb".toList 1 3 = some ['é'] ∧ slice? "aéb".toList 1 2 = none := by decide +kernel

/-- What a step writes, if it can copy its slice. -/
def EscapeStep.piece? (source : List Char) : EscapeStep → Option String
  | copy start stop => (slice? source start stop).map String.ofList
  | entity e => some e

/-- The pieces of an escaped text, as the loop over its bytes writes them. -/
def escapePieces? (s : String) : Option (List String) :=
  (escapeSteps 0 0 (encode s.toList)).mapM (EscapeStep.piece? s.toList)

theorem mapM_copyStep {run : List Char} (htext : text = front ++ (run ++ back)) :
    (copyStep (encode front).length (encode (front ++ run)).length).mapM (EscapeStep.piece? text) =
      some (flush run.reverse []) := by
  have hslice : slice? text (encode front).length (encode (front ++ run)).length = some run :=
    slice?_eq htext rfl rfl
  by_cases hrun : run = []
  · subst hrun
    simp [copyStep, flush]
  · have hpos := length_encode_pos hrun
    have hlt : (encode front).length < (encode (front ++ run)).length := by
      rw [encode_append, List.length_append]
      omega
    rw [copyStep, if_pos hlt, flush, if_neg (by simpa using hrun), List.reverse_reverse]
    simp [EscapeStep.piece?, hslice]

/-- The loop stands behind `front`, which is written, and `run`, which is not. -/
theorem mapM_escapeSteps (front run rest : List Char) (htext : text = front ++ (run ++ rest)) :
    (escapeSteps (encode front).length (encode (front ++ run)).length (encode rest)).mapM
      (EscapeStep.piece? text) = some (piecesAfter run.reverse rest) := by
  induction rest generalizing front run with
  | nil => exact mapM_copyStep htext
  | cons c rest ih =>
    rw [encode_cons, piecesAfter]
    cases h : entity? c with
    | none =>
      have hrun := ih front (run ++ [c]) (by simp [htext])
      have hsize : (encode (front ++ (run ++ [c]))).length =
          (encode (front ++ run)).length + (encodeChar c).length := by
        simp [encode, Nat.add_assoc]
      rw [escapeSteps_plain (fun b => entity?_of_mem_encodeChar h), ← hsize, hrun]
      simp
    | some e =>
      obtain ⟨b, hb, hc⟩ := encodeChar_of_entity? h
      have hnext := ih (front ++ run ++ [c]) [] (by simp [htext])
      have hsize : (encode (front ++ run ++ [c])).length = (encode (front ++ run)).length + 1 := by
        simp [encode, hb, Nat.add_assoc]
      rw [List.append_nil, hsize] at hnext
      rw [hb, List.singleton_append, escapeSteps, hc, h]
      show ((copyStep _ _ ++ _ :: _).mapM _) = some (flush run.reverse (e :: piecesAfter [] rest))
      rw [List.mapM_append, mapM_copyStep htext, List.mapM_cons, hnext,
        flush_eq_append _ (e :: piecesAfter [] rest)]
      rfl

theorem escapePieces?_eq (s : String) : escapePieces? s = some (escapePieces s) :=
  mapM_escapeSteps [] [] s.toList rfl

end Stencil.Text
