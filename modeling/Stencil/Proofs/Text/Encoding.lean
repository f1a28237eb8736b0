import Mathlib.Tactic.SplitIfs
import Stencil.Text.Utf8

/-! # The bytes of a text

The bytes of a text are those of its standard encoding, and the bytes of texts that stand one
behind the other do so too. A character of one byte is that byte, and no byte of another character
can be taken for it. -/
namespace Stencil.Text

theorem encode_append (a b : List Char) : encode (a ++ b) = encode a ++ encode b :=
  List.flatMap_append

theorem toNat_lt (c : Char) : c.toNat < 0x110000 := by
  rcases c.valid with h | h
  · exact Nat.lt_trans h (by decide)
  · exact h.2

/-- The high bits that a code may have are few enough to leave the mark of a first byte alone. -/
theorem encodeChar_eq (c : Char) : encodeChar c = String.utf8EncodeChar c := by
  have hc := toNat_lt c
  have hv : c.val.toNat = c.toNat := rfl
  unfold encodeChar String.utf8EncodeChar
  rw [hv]
  generalize c.toNat = n at hc
  dsimp only
  by_cases h1 : n < 0x80
  · rw [if_pos h1, if_pos (Nat.le_of_lt_succ h1)]
  · rw [if_neg h1, if_neg (show ¬ n ≤ 0x7f by omega)]
    by_cases h2 : n < 0x800
    · have h : n / 64 % 32 = n / 64 := by omega
      rw [if_pos h2, if_pos (Nat.le_of_lt_succ h2), h, Nat.add_comm (n / 64), Nat.add_comm (n % 64)]
    · rw [if_neg h2, if_neg (show ¬ n ≤ 0x7ff by omega)]
      by_cases h3 : n < 0x10000
      · have h : n / 4096 % 16 = n / 4096 := by omega
        rw [if_pos h3, if_pos (Nat.le_of_lt_succ h3), h, Nat.add_comm (n / 4096),
          Nat.add_comm (n / 64 % 64), Nat.add_comm (n % 64)]
      · have h : n / 262144 % 8 = n / 262144 := by omega
        rw [if_neg h3, if_neg (show ¬ n ≤ 0xffff by omega), h, Nat.add_comm (n / 262144),
          Nat.add_comm (n / 4096 % 64), Nat.add_comm (n / 64 % 64), Nat.add_comm (n % 64)]

theorem encode_cons (c : Char) (s : List Char) : encode (c :: s) = encodeChar c ++ encode s :=
  List.flatMap_cons

theorem length_encode_append (a b : List Char) :
    (encode (a ++ b)).length = (encode a).length + (encode b).length := by
  rw [encode_append, List.length_append]

theorem length_encode_cons (c : Char) (s : List Char) :
    (encode (c :: s)).length = c.utf8Size + (encode s).length := by
  rw [encode_cons, List.length_append, encodeChar_eq, String.length_utf8EncodeChar]

theorem encode_eq_nil_iff {text : List Char} : encode text = [] ↔ text = [] := by
  cases text with
  | nil => simp [encode]
  | cons c rest =>
    refine iff_of_false (fun h => ?_) (List.cons_ne_nil c rest)
    have hlength := congrArg List.length h
    rw [length_encode_cons] at hlength
    have hsize := c.utf8Size_pos
    simp only [List.length_nil] at hlength
    omega

theorem length_encode_pos {text : List Char} (h : text ≠ []) : 0 < (encode text).length :=
  List.length_pos_iff.mpr (mt encode_eq_nil_iff.mp h)

/-- The encoding is the standard one. -/
theorem encode_toList (s : String) : encode s.toList = s.toUTF8.data.toList := by
  have h : s.toUTF8 = s.toList.utf8Encode := by
    conv => lhs; rw [← String.ofList_toList (s := s)]
    rfl
  rw [h, List.utf8Encode, List.toList_data_toByteArray, encode]
  exact congrArg (fun f => s.toList.flatMap f) (funext encodeChar_eq)

theorem encode_injective {a b : List Char} (h : encode a = encode b) : a = b := by
  have hutf8 (s : List Char) : encode s = (String.ofList s).toUTF8.data.toList := by
    rw [← encode_toList, String.toList_ofList]
  rw [hutf8, hutf8, Array.toList_inj] at h
  exact String.ofList_injective (String.toByteArray_inj.mp (ByteArray.ext h))

theorem encode_join (pieces : List String) :
    encode (String.join pieces).toList = pieces.flatMap fun piece => encode piece.toList := by
  induction pieces with
  | nil => rfl
  | cons piece rest ih =>
    rw [String.join_cons, String.toList_append, encode_append, ih, List.flatMap_cons]

/-- The character that a byte stands for when it stands alone. -/
def alone (b : UInt8) : Char := Char.ofNat b.toNat

theorem toNat_ofNat_of_lt {n : Nat} (h : n < 0xD800) : (Char.ofNat n).toNat = n := by
  have hvalid : n.isValidChar := Or.inl h
  rw [Char.ofNat, dif_pos hvalid]
  rfl

theorem toNat_alone (b : UInt8) : (alone b).toNat = b.toNat := by
  have hb := b.toNat_lt
  exact toNat_ofNat_of_lt (by omega)

theorem encodeChar_of_lt {c : Char} (h : c.toNat < 0x80) :
    ∃ b, encodeChar c = [b] ∧ alone b = c := by
  refine ⟨c.toNat.toUInt8, if_pos h, ?_⟩
  have hbyte : c.toNat.toUInt8.toNat = c.toNat := by
    rw [Nat.toUInt8_eq, UInt8.toNat_ofNat']
    omega
  rw [alone, hbyte, Char.ofNat_toNat]

theorem length_encode_of_lt {c : Char} (h : c.toNat < 0x80) : (encode [c]).length = 1 := by
  obtain ⟨b, hb, -⟩ := encodeChar_of_lt h
  simp [encode, hb]

theorem le_of_mem_encodeChar {c : Char} (h : 0x80 ≤ c.toNat) {b : UInt8} (hb : b ∈ encodeChar c) :
    0x80 ≤ (alone b).toNat := by
  have hlt := toNat_lt c
  rw [toNat_alone]
  unfold encodeChar at hb
  rw [if_neg (by omega)] at hb
  split_ifs at hb <;>
    simp only [List.mem_cons, List.not_mem_nil, or_false] at hb <;>
    rcases hb with rfl | rfl | rfl | rfl <;>
    simp only [Nat.toUInt8_eq, UInt8.toNat_ofNat'] <;>
    omega

/-- Behind its first byte a character has none that stands for a character alone. -/
theorem encodeChar_eq_cons (c : Char) :
    ∃ b more, encodeChar c = b :: more ∧ ∀ d ∈ more, 0x80 ≤ (alone d).toNat := by
  by_cases h : c.toNat < 0x80
  · obtain ⟨b, hb, -⟩ := encodeChar_of_lt h
    exact ⟨b, [], hb, nofun⟩
  · cases hbytes : encodeChar c with
    | nil =>
      have hlength := String.length_utf8EncodeChar c
      rw [← encodeChar_eq, hbytes] at hlength
      exact absurd hlength (Nat.ne_of_lt c.utf8Size_pos)
    | cons b more =>
      refine ⟨b, more, rfl, fun d hd => ?_⟩
      exact le_of_mem_encodeChar (by omega) (hbytes ▸ List.mem_cons_of_mem b hd)

theorem alone_of_mem_encodeChar {c : Char} {b : UInt8} (hb : b ∈ encodeChar c) :
    alone b = c ∨ 0x80 ≤ (alone b).toNat := by
  by_cases h : c.toNat < 0x80
  · obtain ⟨d, hd, rfl⟩ := encodeChar_of_lt h
    rw [hd, List.mem_singleton] at hb
    exact Or.inl (by rw [hb])
  · exact Or.inr (le_of_mem_encodeChar (by omega) hb)

section

variable {marks : List Char} {b : UInt8}

theorem alone_notMem_of_le (hmarks : ∀ m ∈ marks, m.toNat < 0x80) (hb : 0x80 ≤ (alone b).toNat) :
    alone b ∉ marks := by
  intro hmem
  have hsmall := hmarks _ hmem
  omega

/-- If a character is not among some characters of one byte, none of its bytes is. -/
theorem alone_notMem (hmarks : ∀ m ∈ marks, m.toNat < 0x80) {c : Char} (hc : c ∉ marks)
    (hb : b ∈ encodeChar c) : alone b ∉ marks := by
  rcases alone_of_mem_encodeChar hb with h | h
  · rwa [h]
  · exact alone_notMem_of_le hmarks h

end

variable {text front back : List Char}

/-- A text begins with a character of one byte if its first byte is that character. -/
theorem head?_encode_iff {c : Char} (h : c.toNat < 0x80) :
    (encode text).head?.map alone = some c ↔ text.head? = some c := by
  cases text with
  | nil => simp [encode]
  | cons d rest =>
    obtain ⟨b, more, hd, -⟩ := encodeChar_eq_cons d
    have hhead : (encode (d :: rest)).head? = some b := by
      rw [encode_cons, hd]
      rfl
    have hb : b ∈ encodeChar d := hd ▸ List.mem_cons_self
    rw [hhead, Option.map_some, List.head?_cons, Option.some_inj, Option.some_inj]
    constructor
    · rintro rfl
      exact ((alone_of_mem_encodeChar hb).resolve_right (by omega)).symm
    · rintro rfl
      obtain ⟨e, he, halone⟩ := encodeChar_of_lt h
      rw [he] at hd
      rw [← (List.cons.inj hd).1, halone]

theorem head?_encode_of_lt {c : Char} (h : c.toNat < 0x80) (rest : List Char) :
    ∃ b, (encode (c :: rest)).head? = some b ∧ alone b = c :=
  Option.map_eq_some_iff.mp ((head?_encode_iff h).mpr rfl)

/-- The byte behind a front of a text. -/
theorem getElem?_encode (htext : text = front ++ back) :
    (encode text)[(encode front).length]? = (encode back).head? := by
  rw [htext, encode_append, List.getElem?_append_right (Nat.le_refl _), Nat.sub_self,
    List.head?_eq_getElem?]

theorem getElem?_encode_succ {c : Char} (hc : c.toNat < 0x80) (htext : text = front ++ (c :: back)) :
    (encode text)[(encode front).length + 1]? = (encode back).head? := by
  have hnext : text = front ++ [c] ++ back := by simp [htext]
  have h := getElem?_encode hnext
  rwa [length_encode_append, length_encode_of_lt hc] at h

end Stencil.Text
