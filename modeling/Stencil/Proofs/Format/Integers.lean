import Mathlib.Data.List.DropRight
import Stencil.Proofs.Format.Directive

/-! # Integers in directives

An integer that a directive shows can be read back in the base of the verb: flags, width and precision
put blanks around it, a sign in front and zeros between the sign and the digits, and nothing else. The
width is the least number of characters.
-/
namespace Stencil

def digitOf? (c : Char) : Option Nat :=
  if '0' ≤ c ∧ c ≤ '9' then some (c.toNat - '0'.toNat)
  else if 'a' ≤ c ∧ c ≤ 'f' then some (c.toNat - 'a'.toNat + 10)
  else if 'A' ≤ c ∧ c ≤ 'F' then some (c.toNat - 'A'.toNat + 10)
  else none

/-- The number with one more digit behind it, if that is a digit of the base. -/
def nextDigit? (base n : Nat) (c : Char) : Option Nat :=
  match digitOf? c with
  | some d => if d < base then some (base * n + d) else none
  | none => none

/-- The number that digits of a base spell; there must be one at least. -/
def readInBase? (base : Nat) (digits : List Char) : Option Nat :=
  if digits = [] then none else digits.foldlM (nextDigit? base) 0

theorem digitOf?_digitChar {d : Nat} (h : d < 16) :
    digitOf? d.digitChar = some d ∧ digitOf? d.digitChar.toUpper = some d := by
  have hall : ∀ e ∈ List.range 16,
      digitOf? e.digitChar = some e ∧ digitOf? e.digitChar.toUpper = some e := by decide
  exact hall d (List.mem_range.mpr h)

/-- Digits spell their number, also in a writing of their own. -/
theorem foldlM_toDigits {base : Nat} (hbase : 1 < base) {write : Char → Char}
    (hwrite : ∀ d < base, digitOf? (write d.digitChar) = some d) (n : Nat) :
    ((Nat.toDigits base n).map write).foldlM (nextDigit? base) 0 = some n := by
  induction n using Nat.strongRecOn with
  | _ n ih =>
    rw [Nat.toDigits_eq_if hbase]
    by_cases hlt : n < base
    · rw [if_pos hlt]
      simp [nextDigit?, hwrite n hlt, hlt]
    · have hmod : n % base < base := Nat.mod_lt n (by omega)
      have hdiv : n / base < n := Nat.div_lt_self (by omega) hbase
      rw [if_neg hlt, List.map_append, List.foldlM_append, ih _ hdiv]
      simp [nextDigit?, hwrite _ hmod, hmod, Nat.div_add_mod]

theorem foldlM_zeros {base : Nat} (hbase : 0 < base) (k : Nat) (digits : List Char) :
    (List.replicate k '0' ++ digits).foldlM (nextDigit? base) 0 =
      digits.foldlM (nextDigit? base) 0 := by
  induction k with
  | zero => rfl
  | succ k ih =>
    have hzero : nextDigit? base 0 '0' = some 0 := by simp [nextDigit?, digitOf?, hbase]
    rw [List.replicate_succ, List.cons_append, List.foldlM_cons, hzero]
    exact ih

/-- No character of what is read is anything but a digit. -/
theorem digitOf?_of_foldlM {base n m : Nat} {digits : List Char}
    (h : digits.foldlM (nextDigit? base) n = some m) : ∀ c ∈ digits, digitOf? c ≠ none := by
  induction digits generalizing n with
  | nil => exact fun c hc => absurd hc List.not_mem_nil
  | cons c digits ih =>
    rw [List.foldlM_cons] at h
    obtain ⟨k, hk, hrest⟩ := Option.bind_eq_some_iff.mp h
    refine List.forall_mem_cons.mpr ⟨fun hnone => ?_, ih hrest⟩
    rw [nextDigit?, hnone] at hk
    cases hk

/-- What is left of a text without the blanks at both ends, and without a plus sign in front. -/
def withoutPadding (text : List Char) : List Char :=
  let inner := (text.dropWhile (· = ' ')).rdropWhile (· = ' ')
  if inner.head? = some '+' then inner.tail else inner

namespace Layout

theorem length_pad (l : Layout) (sign body : List Char) (zeroAllowed : Bool) :
    (l.pad sign body zeroAllowed).length = max (l.width.getD 0) (sign.length + body.length) := by
  unfold pad
  dsimp only
  split
  · simp only [List.length_append, List.length_replicate]
    omega
  · split
    · simp only [List.length_append, List.length_replicate]
      omega
    · simp only [List.length_append, List.length_replicate]
      omega

/-- Padding is blanks in front, zeros in front of the body and blanks behind. -/
theorem exists_pad (l : Layout) (sign body : List Char) (zeroAllowed : Bool) :
    ∃ before zeros behind, l.pad sign body zeroAllowed =
      List.replicate before ' ' ++ (sign ++ (List.replicate zeros '0' ++ body)) ++
        List.replicate behind ' ' := by
  unfold pad
  dsimp only
  generalize l.width.getD 0 - (sign.length + body.length) = fill
  split
  · exact ⟨0, 0, fill, by simp⟩
  · split
    · exact ⟨0, fill, 0, by simp⟩
    · exact ⟨fill, 0, 0, by simp⟩

theorem sign_cases (l : Layout) (negative : Bool) :
    l.sign negative = (if negative then ['-'] else []) ∨
      (negative = false ∧ (l.sign negative = ['+'] ∨ l.sign negative = [' '])) := by
  unfold sign
  cases negative with
  | true => exact Or.inl rfl
  | false => cases l.plusSign <;> cases l.spaceSign <;> simp

end Layout

/-- Around a text that has no blanks at its ends, all of them are dropped. -/
theorem withoutPadding_blanks {text : List Char} (hne : text ≠ []) (hhead : text.head? ≠ some ' ')
    (hlast : text.getLast? ≠ some ' ') (before behind : Nat) :
    withoutPadding (List.replicate before ' ' ++ text ++ List.replicate behind ' ') =
      if text.head? = some '+' then text.tail else text := by
  have hblank (k : Nat) : ∀ c ∈ List.replicate k ' ', decide (c = ' ') = true := fun c hc =>
    decide_eq_true (List.eq_of_mem_replicate hc)
  have hkeep {rest : List Char} (h : rest.head? ≠ some ' ') (hrest : rest ≠ []) (more : List Char) :
      (rest ++ more).dropWhile (· = ' ') = rest ++ more := by
    obtain ⟨c, rest, rfl⟩ := List.exists_cons_of_ne_nil hrest
    have hc : c ≠ ' ' := fun hc => h (congrArg some hc)
    rw [List.cons_append, List.dropWhile_cons_of_neg (by simpa using hc)]
  have hfirst : text.reverse.head? ≠ some ' ' := by rwa [List.head?_reverse]
  have hback := hkeep hfirst (by simpa using hne) []
  rw [List.append_nil] at hback
  rw [withoutPadding, List.append_assoc, List.dropWhile_append_of_pos (hblank before),
    hkeep hhead hne, List.rdropWhile, List.reverse_append, List.reverse_replicate,
    List.dropWhile_append_of_pos (hblank behind), hback, List.reverse_reverse]

/-- Of a padded number the minus sign and the digits are left. -/
theorem withoutPadding_pad (l : Layout) (negative : Bool) {body : List Char} (hne : body ≠ [])
    (hdigits : ∀ c ∈ body, digitOf? c ≠ none) (zeroAllowed : Bool) :
    ∃ zeros, withoutPadding (l.pad (l.sign negative) body zeroAllowed) =
      (if negative then ['-'] else []) ++ (List.replicate zeros '0' ++ body) := by
  obtain ⟨before, zeros, behind, hpad⟩ := l.exists_pad (l.sign negative) body zeroAllowed
  generalize hall : List.replicate zeros '0' ++ body = digits at hpad
  have hdigit : ∀ c ∈ digits, digitOf? c ≠ none := by
    rw [← hall]
    intro c hc
    rcases List.mem_append.mp hc with hc | hc
    · rw [List.eq_of_mem_replicate hc]
      decide
    · exact hdigits c hc
  have hplus : digits.head? ≠ some '+' := fun h => hdigit '+' (List.mem_of_mem_head? h) rfl
  have hhead : digits.head? ≠ some ' ' := fun h => hdigit ' ' (List.mem_of_mem_head? h) rfl
  have hlast : digits.getLast? ≠ some ' ' := fun h => hdigit ' ' (List.mem_of_getLast? h) rfl
  have hsome : digits ≠ [] := by
    rw [← hall]
    exact List.append_ne_nil_of_right_ne_nil _ hne
  have hsign (c : Char) : (c :: digits).getLast? ≠ some ' ' := by
    rwa [List.getLast?_cons_of_ne_nil hsome]
  have hblanks (before : Nat) :
      withoutPadding (List.replicate before ' ' ++ digits ++ List.replicate behind ' ') = digits := by
    rw [withoutPadding_blanks hsome hhead hlast, if_neg hplus]
  refine ⟨zeros, ?_⟩
  rw [hall, hpad]
  rcases l.sign_cases negative with hs | ⟨hnegative, hs | hs⟩
  · rw [hs]
    cases negative with
    | true => exact withoutPadding_blanks (List.cons_ne_nil '-' digits) (by simp) (hsign '-') _ _
    | false => exact hblanks before
  · rw [hs, hnegative]
    exact withoutPadding_blanks (List.cons_ne_nil '+' digits) (by simp) (hsign '+') _ _
  · -- the blank in place of a sign is one more in front
    have hblank : List.replicate before ' ' ++ ([' '] ++ digits) =
        List.replicate (before + 1) ' ' ++ digits := by
      rw [List.replicate_succ', List.append_assoc]
    rw [hs, hnegative, hblank]
    exact hblanks (before + 1)

namespace Directive

/-- The verbs that show integers, and their bases. -/
def integerVerbs : List (Char × Nat) := [('d', 10), ('o', 8), ('b', 2), ('x', 16), ('X', 16)]

theorem isVerb_of_mem {verb : Char} {base : Nat} (h : (verb, base) ∈ integerVerbs) :
    IsVerb verb ∧ 1 < base ∧ base ≤ 16 := by
  simp only [integerVerbs, List.mem_cons, Prod.mk.injEq, List.not_mem_nil, or_false] at h
  rcases h with ⟨rfl, rfl⟩ | ⟨rfl, rfl⟩ | ⟨rfl, rfl⟩ | ⟨rfl, rfl⟩ | ⟨rfl, rfl⟩ <;>
    exact ⟨⟨by decide, by decide, by decide, by decide⟩, by decide, by decide⟩

theorem apply_int {verb : Char} {base : Nat} (h : (verb, base) ∈ integerVerbs) (l : Layout)
    (n : Int64) : apply l verb (.int n) = .ok (showInt l base (verb = 'X') n) := by
  simp only [integerVerbs, List.mem_cons, Prod.mk.injEq, List.not_mem_nil, or_false] at h
  rcases h with ⟨rfl, rfl⟩ | ⟨rfl, rfl⟩ | ⟨rfl, rfl⟩ | ⟨rfl, rfl⟩ | ⟨rfl, rfl⟩ <;> rfl

/-- The digits of an integer, filled up with zeros to the precision. -/
def integerBody (l : Layout) (base : Nat) (capital : Bool) (n : Int64) : List Char :=
  let digits := (Nat.toDigits base n.toInt.natAbs).map fun c => if capital then c.toUpper else c
  List.replicate (l.precision.getD 0 - digits.length) '0' ++ digits

theorem foldlM_integerBody {base : Nat} (hbase : 1 < base) (hle : base ≤ 16) (l : Layout)
    (capital : Bool) (n : Int64) :
    (integerBody l base capital n).foldlM (nextDigit? base) 0 = some n.toInt.natAbs := by
  have hwrite : ∀ d < base,
      digitOf? (if capital then d.digitChar.toUpper else d.digitChar) = some d := by
    intro d hd
    obtain ⟨hsmall, hcapital⟩ := digitOf?_digitChar (Nat.lt_of_lt_of_le hd hle)
    split
    · exact hcapital
    · exact hsmall
  exact (foldlM_zeros (by omega) _ _).trans (foldlM_toDigits hbase hwrite n.toInt.natAbs)

theorem readInBase?_withoutPadding {base : Nat} (hbase : 1 < base) (hle : base ≤ 16) (l : Layout)
    (capital : Bool) (n : Int64) :
    ∃ digits, withoutPadding (showInt l base capital n) =
        (if n.toInt < 0 then ['-'] else []) ++ digits ∧
      readInBase? base digits = some n.toInt.natAbs := by
  have hread := foldlM_integerBody hbase hle l capital n
  have hne : integerBody l base capital n ≠ [] := by
    simp [integerBody, Nat.toDigits_ne_nil]
  obtain ⟨zeros, hpadding⟩ := withoutPadding_pad l (n.toInt < 0) hne (digitOf?_of_foldlM hread)
    l.precision.isNone
  refine ⟨List.replicate zeros '0' ++ integerBody l base capital n, ?_, ?_⟩
  · simpa [showInt, integerBody] using hpadding
  · rw [readInBase?, if_neg (List.append_ne_nil_of_right_ne_nil _ hne), foldlM_zeros (by omega), hread]

theorem length_showInt (l : Layout) (base : Nat) (capital : Bool) (n : Int64) :
    (showInt l base capital n).length =
      max (l.width.getD 0) ((l.sign (n.toInt < 0)).length + (integerBody l base capital n).length) :=
  l.length_pad _ _ _

theorem sprintf_format {flags : List Char} (hflags : ∀ c ∈ flags, c ∈ flagChars)
    (width precision : Option Nat) {verb : Char} {base : Nat}
    (hverb : (verb, base) ∈ integerVerbs) (n : Int64) :
    sprintf (format flags width precision verb) [.int n] =
      .ok (String.ofList (showInt (layout flags width precision) base (verb = 'X') n)) := by
  rw [sprintf_eq_map, FormatPiece.ofFormat_format hflags width precision (isVerb_of_mem hverb).1,
    formatPieces_directive (apply_int hverb _ n)]
  simp [formatPieces, Except.map]

/-- Whatever its flags, width and precision are, a directive shows an integer with the width or more
characters, more only if it does so without the width. Blanks at the ends and a plus sign apart, the
text is a minus sign for a negative integer and digits that are read in the base of the verb as its
magnitude. -/
theorem integers_read_back {flags : List Char} (hflags : ∀ c ∈ flags, c ∈ ['-', '0', '+', ' '])
    (width precision : Option Nat) {verb : Char} {base : Nat}
    (hverb : (verb, base) ∈ [('d', 10), ('o', 8), ('b', 2), ('x', 16), ('X', 16)]) (n : Int64) :
    ∃ shown unpadded, sprintf (format flags width precision verb) [.int n] = .ok shown ∧
      sprintf (format flags none precision verb) [.int n] = .ok unpadded ∧
      shown.length = max (width.getD 0) unpadded.length ∧
      ∃ digits, withoutPadding shown.toList = (if n.toInt < 0 then ['-'] else []) ++ digits ∧
        readInBase? base digits = some n.toInt.natAbs := by
  obtain ⟨-, hbase, hle⟩ := isVerb_of_mem hverb
  refine ⟨_, _, sprintf_format hflags width precision hverb n,
    sprintf_format hflags none precision hverb n, ?_, ?_⟩
  · have hwidth : (layout flags width precision).width.getD 0 = width.getD 0 := by
      cases width with
      | none => rfl
      | some w => by_cases hw : w = 0 <;> simp [layout, hw]
    have hnone : (layout flags none precision).width.getD 0 = 0 := rfl
    rw [String.length_ofList, String.length_ofList, length_showInt, length_showInt, hwidth, hnone,
      Nat.zero_max]
    rfl
  · rw [String.toList_ofList]
    exact readInBase?_withoutPadding hbase hle _ _ n

/-- The least integer with a flag for a plus sign that it does not have, and zeros behind its own sign. -/
theorem integers_read_back_least :
    (∀ c ∈ ['+', '0'], c ∈ ['-', '0', '+', ' ']) ∧
    ('x', 16) ∈ [('d', 10), ('o', 8), ('b', 2), ('x', 16), ('X', 16)] ∧
    format ['+', '0'] (some 20) none 'x' = "%+020x" ∧
    sprintf "%+020x" [.int Int64.minValue] = .ok "-0008000000000000000" ∧
    ∃ digits, withoutPadding "-0008000000000000000".toList = '-' :: digits ∧
      readInBase? 16 digits = some (2 ^ 63) := by
  have hflags : ∀ c ∈ ['+', '0'], c ∈ ['-', '0', '+', ' '] := by decide
  have hverb : ('x', 16) ∈ [('d', 10), ('o', 8), ('b', 2), ('x', 16), ('X', 16)] := by decide
  have hformat : format ['+', '0'] (some 20) none 'x' = "%+020x" := by decide +kernel
  have hsprintf : sprintf "%+020x" [.int Int64.minValue] = .ok "-0008000000000000000" := rfl
  obtain ⟨shown, unpadded, hshown, -, -, digits, hdigits, hread⟩ :=
    integers_read_back hflags (some 20) none hverb Int64.minValue
  rw [hformat, hsprintf] at hshown
  obtain rfl := Except.ok.inj hshown
  exact ⟨hflags, hverb, hformat, hsprintf, digits, hdigits, hread⟩

end Directive

end Stencil
