import Mathlib.Data.Nat.Digits.Defs
import Stencil.Decimal.Reader

/-! # Integers and their digits

What is read as an integer is what spells one in decimal digits; and the decimal text of a signed
64-bit integer is read back as that integer.
-/
namespace Stencil

/-- The digits of a natural number, the last one counting ones, the one before it tens. -/
structure SpellsNat (digits : List Char) (n : Nat) : Prop where
  nonempty : digits ≠ []
  digit : ∀ c ∈ digits, isDigit c = true
  value : n = Nat.ofDigits 10 (digits.map digitValue).reverse

/-- The digits of an integer, behind an optional sign. -/
inductive SpellsInt : List Char → Int → Prop
  | unsigned {digits n} : SpellsNat digits n → SpellsInt digits n
  | plus {digits n} : SpellsNat digits n → SpellsInt ('+' :: digits) n
  | minus {digits n} : SpellsNat digits n → SpellsInt ('-' :: digits) (-n)

theorem digitsValue_eq (digits : List Char) :
    digitsValue 0 digits = Nat.ofDigits 10 (digits.map digitValue).reverse := by
  rw [digitsValue, Nat.ofDigits_eq_foldr, List.foldr_reverse, List.foldl_map]
  congr 1
  funext n c
  rw [Nat.cast_id, Nat.add_comm]

theorem readNat?_eq_some_iff {text : List Char} {n : Nat} :
    readNat? text = some n ↔ SpellsNat text n := by
  rw [readNat?]
  constructor
  · intro h
    split at h
    · rename_i hdigits
      refine ⟨hdigits.1, List.all_eq_true.mp hdigits.2, ?_⟩
      rw [← digitsValue_eq]
      exact (Option.some.inj h).symm
    · cases h
  · rintro ⟨hne, hdigit, rfl⟩
    rw [if_pos ⟨hne, List.all_eq_true.mpr hdigit⟩, digitsValue_eq]

/-- A digit in front is no sign. -/
theorem SpellsNat.splitSign {digits : List Char} {n : Nat} (h : SpellsNat digits n) :
    splitSign digits = (false, digits) := by
  unfold Stencil.splitSign
  split
  · exact absurd (h.digit '-' List.mem_cons_self) (by decide)
  · exact absurd (h.digit '+' List.mem_cons_self) (by decide)
  · rfl

theorem splitSign_cases (text : List Char) :
    (∃ rest, text = '-' :: rest ∧ splitSign text = (true, rest)) ∨
    (∃ rest, text = '+' :: rest ∧ splitSign text = (false, rest)) ∨
    splitSign text = (false, text) := by
  unfold splitSign
  split
  · exact Or.inl ⟨_, rfl, rfl⟩
  · exact Or.inr (Or.inl ⟨_, rfl, rfl⟩)
  · exact Or.inr (Or.inr rfl)

theorem readInt?_of_splitSign {text digits : List Char} {negative : Bool}
    (h : splitSign text = (negative, digits)) :
    readInt? text = (readNat? digits).map fun n : Nat => if negative then -(n : Int) else n := by
  rw [readInt?, h]
  dsimp only
  cases readNat? digits with
  | none => rfl
  | some n => rfl

theorem readInt?_eq_some_iff {text : List Char} {n : Int} :
    readInt? text = some n ↔ SpellsInt text n := by
  constructor
  · intro h
    rcases splitSign_cases text with ⟨rest, rfl, hsign⟩ | ⟨rest, rfl, hsign⟩ | hsign
    · rw [readInt?_of_splitSign hsign] at h
      obtain ⟨k, hk, rfl⟩ := Option.map_eq_some_iff.mp h
      exact .minus (readNat?_eq_some_iff.mp hk)
    · rw [readInt?_of_splitSign hsign] at h
      obtain ⟨k, hk, rfl⟩ := Option.map_eq_some_iff.mp h
      exact .plus (readNat?_eq_some_iff.mp hk)
    · rw [readInt?_of_splitSign hsign] at h
      obtain ⟨k, hk, rfl⟩ := Option.map_eq_some_iff.mp h
      exact .unsigned (readNat?_eq_some_iff.mp hk)
  · intro h
    cases h with
    | unsigned hn =>
      rw [readInt?_of_splitSign hn.splitSign, readNat?_eq_some_iff.mpr hn]
      rfl
    | @plus digits n hn =>
      have hsign : splitSign ('+' :: digits) = (false, digits) := rfl
      rw [readInt?_of_splitSign hsign, readNat?_eq_some_iff.mpr hn]
      rfl
    | @minus digits n hn =>
      have hsign : splitSign ('-' :: digits) = (true, digits) := rfl
      rw [readInt?_of_splitSign hsign, readNat?_eq_some_iff.mpr hn]
      rfl

theorem readInt64?_eq_some_iff {text : List Char} {n : Int64} :
    readInt64? text = some n ↔ SpellsInt text n.toInt := by
  rw [readInt64?, ← readInt?_eq_some_iff, Option.bind_eq_some_iff]
  constructor
  · rintro ⟨k, hk, hn⟩
    rw [int64?] at hn
    split at hn
    · rename_i hbounds
      rw [← Option.some.inj hn, Int64.toInt_ofInt_of_le hbounds.1 hbounds.2]
      exact hk
    · cases hn
  · intro h
    refine ⟨n.toInt, h, ?_⟩
    rw [int64?, if_pos ⟨Int64.le_toInt n, Int64.toInt_lt n⟩, Int64.ofInt_toInt]

theorem isDigit_of_mem_toDigits {n : Nat} {c : Char} (h : c ∈ Nat.toDigits 10 n) :
    isDigit c = true :=
  Nat.isDigit_of_mem_toDigits (by decide) (by decide) h

theorem digitsValue_toDigits (n : Nat) : digitsValue 0 (Nat.toDigits 10 n) = n := by
  rw [digitsValue]
  exact Nat.ofDigitChars_eq_foldl.symm.trans Nat.ofDigitChars_ten_toDigits

theorem readNat?_toDigits (n : Nat) : readNat? (Nat.toDigits 10 n) = some n := by
  have hne : Nat.toDigits 10 n ≠ [] := Nat.toDigits_ne_nil
  have hall : (Nat.toDigits 10 n).all isDigit = true :=
    List.all_eq_true.mpr fun c hc => isDigit_of_mem_toDigits hc
  rw [readNat?, if_pos ⟨hne, hall⟩, digitsValue_toDigits]

theorem splitSign_toDigits (n : Nat) :
    splitSign (Nat.toDigits 10 n) = (false, Nat.toDigits 10 n) :=
  (readNat?_eq_some_iff.mp (readNat?_toDigits n)).splitSign

theorem readInt?_toDigits (n : Nat) : readInt? (Nat.toDigits 10 n) = some (n : Int) := by
  rw [readInt?_of_splitSign (splitSign_toDigits n), readNat?_toDigits]
  rfl

theorem readInt?_neg_toDigits (n : Nat) :
    readInt? ('-' :: Nat.toDigits 10 n) = some (-(n : Int)) := by
  have hsign : splitSign ('-' :: Nat.toDigits 10 n) = (true, Nat.toDigits 10 n) := rfl
  rw [readInt?_of_splitSign hsign, readNat?_toDigits]
  rfl

/-- The decimal text of an integer has its digits, behind a sign if it is negative. -/
theorem toString_int_cases (n : Int) :
    ∃ m : Nat, (n = m ∧ (toString n).toList = Nat.toDigits 10 m) ∨
      (n = -m ∧ (toString n).toList = '-' :: Nat.toDigits 10 m) := by
  rw [Int.toString_eq_repr, Int.repr_eq_if]
  by_cases hn : 0 ≤ n
  · rw [if_pos hn, Nat.toList_repr]
    exact ⟨n.toNat, Or.inl ⟨(Int.toNat_of_nonneg hn).symm, rfl⟩⟩
  · have hneg : ((-n).toNat : Int) = -n := Int.toNat_of_nonneg (by omega)
    rw [if_neg hn, String.toList_append, Nat.toList_repr]
    exact ⟨(-n).toNat, Or.inr ⟨by omega, rfl⟩⟩

theorem readInt?_toString (n : Int) : readInt? (toString n).toList = some n := by
  obtain ⟨m, ⟨hn, hm⟩ | ⟨hn, hm⟩⟩ := toString_int_cases n
  · rw [hm, readInt?_toDigits, hn]
  · rw [hm, readInt?_neg_toDigits, hn]

theorem readInt64?_toString (n : Int64) : readInt64? (toString n.toInt).toList = some n := by
  rw [readInt64?, readInt?_toString, Option.bind_some, int64?,
    if_pos ⟨Int64.le_toInt n, Int64.toInt_lt n⟩, Int64.ofInt_toInt]

end Stencil
