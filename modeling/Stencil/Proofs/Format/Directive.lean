import Stencil.Proofs.Decimal.Integer
import Stencil.Proofs.Format.Seam

/-! # The text of a directive

Flags in any order, a width and a precision in decimal digits, and a verb: what a directive that is
spelled so is read as. A width of zero is none, because its digit is a flag.
-/
namespace Stencil

/-- A number that is not zero has no zero in front. -/
theorem exists_toDigits_eq_cons {n : Nat} (hn : n ≠ 0) :
    ∃ c digits, Nat.toDigits 10 n = c :: digits ∧ c ≠ '0' := by
  induction n using Nat.strongRecOn with
  | _ n ih =>
    rw [Nat.toDigits_eq_if (by decide)]
    by_cases hlt : n < 10
    · rw [if_pos hlt]
      exact ⟨n.digitChar, [], rfl, fun h => hn (Nat.digitChar_eq_zero.mp h)⟩
    · obtain ⟨c, digits, htens, hc⟩ := ih (n / 10) (by omega) (by omega)
      rw [if_neg hlt, htens]
      exact ⟨c, digits ++ [(n % 10).digitChar], rfl, hc⟩

namespace Directive

def flagChars : List Char := ['-', '0', '+', ' ']

def numeral : Option Nat → List Char
  | some n => Nat.toDigits 10 n
  | none => []

/-- A precision behind its point, if there is one. -/
def pointed : Option Nat → List Char
  | some n => '.' :: Nat.toDigits 10 n
  | none => []

def format (flags : List Char) (width precision : Option Nat) (verb : Char) : String :=
  String.ofList ('%' :: (flags ++ numeral width ++ pointed precision) ++ [verb])

/-- What such a directive asks for. -/
def layout (flags : List Char) (width precision : Option Nat) : Layout :=
  ⟨flags.contains '-', flags.contains '0' || width == some 0, flags.contains '+',
    flags.contains ' ', if width = some 0 then none else width, precision⟩

/-- A character that ends a directive wherever it stands. -/
structure IsVerb (c : Char) : Prop where
  flag : c ∉ flagChars
  digit : isDigit c = false
  point : c ≠ '.'
  percent : c ≠ '%'

def withFlags (l : Layout) (flags : List Char) : Layout :=
  ⟨l.leftAlign || flags.contains '-', l.zeroPad || flags.contains '0',
    l.plusSign || flags.contains '+', l.spaceSign || flags.contains ' ', l.width, l.precision⟩

/-- A layout with a width, which has none of its own. -/
def withWidth (l : Layout) (width : Option Nat) : Layout :=
  { l with zeroPad := l.zeroPad || width == some 0, width := if width = some 0 then none else width }

end Directive

namespace FormatPiece

open Directive

theorem flag?_of_mem (l : Layout) {c : Char} (h : c ∈ flagChars) :
    l.flag? c = some (withFlags l [c]) := by
  simp only [flagChars, List.mem_cons, List.not_mem_nil, or_false] at h
  rcases h with rfl | rfl | rfl | rfl <;> simp [Layout.flag?, withFlags]

theorem flag?_of_not_mem (l : Layout) {c : Char} (h : c ∉ flagChars) : l.flag? c = none := by
  simp only [flagChars, List.mem_cons, List.not_mem_nil, or_false, not_or] at h
  simp [Layout.flag?, h]

theorem read_flags {flags : List Char} (h : ∀ c ∈ flags, c ∈ flagChars) (l : Layout)
    (rest : List Char) :
    read (.flags l) (flags ++ rest) = read (.flags (withFlags l flags)) rest := by
  induction flags generalizing l with
  | nil => simp [withFlags]
  | cons c flags ih =>
    obtain ⟨hc, hflags⟩ := List.forall_mem_cons.mp h
    have hcons : withFlags (withFlags l [c]) flags = withFlags l (c :: flags) := by
      simp [withFlags, Bool.or_assoc]
    rw [List.cons_append, read, flag?_of_mem l hc]
    exact (ih hflags _).trans (by rw [hcons])

/-- Digits are read into a number wherever a digit is. -/
theorem read_digits {m : Nat → Mode}
    (hstep : ∀ n c rest, isDigit c = true →
      read (m n) (c :: rest) = read (m (10 * n + digitValue c)) rest)
    {digits : List Char} (h : ∀ c ∈ digits, isDigit c = true) (n : Nat) (rest : List Char) :
    read (m n) (digits ++ rest) = read (m (digitsValue n digits)) rest := by
  induction digits generalizing n with
  | nil => rfl
  | cons c digits ih =>
    obtain ⟨hc, hdigits⟩ := List.forall_mem_cons.mp h
    rw [List.cons_append, hstep n c _ hc]
    exact ih hdigits (10 * n + digitValue c)

theorem read_width {digits : List Char} (h : ∀ c ∈ digits, isDigit c = true) (l : Layout) (n : Nat)
    (rest : List Char) :
    read (.width { l with width := some n }) (digits ++ rest) =
      read (.width { l with width := some (digitsValue n digits) }) rest := by
  refine read_digits (m := fun n => .width { l with width := some n }) (fun n c rest hc => ?_) h n rest
  rw [read, if_pos hc]
  rfl

theorem read_precision {digits : List Char} (h : ∀ c ∈ digits, isDigit c = true) (l : Layout)
    (n : Nat) (rest : List Char) :
    read (.precision { l with precision := some n }) (digits ++ rest) =
      read (.precision { l with precision := some (digitsValue n digits) }) rest := by
  refine read_digits (m := fun n => .precision { l with precision := some n })
    (fun n c rest hc => ?_) h n rest
  rw [read, if_pos hc]
  rfl

/-- Behind the flags, or behind the width, a precision and a verb are the rest of the directive. -/
theorem read_pointed {m : Mode} {l : Layout} (hm : m = .flags l ∨ m = .width l)
    (precision : Option Nat) (hl : l.precision = none) {verb : Char} (hverb : IsVerb verb)
    (rest : List Char) :
    read m (pointed precision ++ verb :: rest) =
      .directive { l with precision := precision } verb :: read .text rest := by
  have hflag := flag?_of_not_mem l hverb.flag
  have hdigit : ¬ isDigit verb = true := Bool.eq_false_iff.mp hverb.digit
  cases precision with
  | none =>
    have hsame : { l with precision := none } = l := by rw [← hl]
    rw [hsame]
    rcases hm with rfl | rfl
    · show read (.flags l) (verb :: rest) = _
      rw [read, hflag]
      exact (if_neg hdigit).trans (if_neg hverb.point)
    · show read (.width l) (verb :: rest) = _
      rw [read, if_neg hdigit, if_neg hverb.point]
  | some n =>
    have hpoint : read m (pointed (some n) ++ verb :: rest) =
        read (.precision { l with precision := some 0 }) (Nat.toDigits 10 n ++ verb :: rest) := by
      rcases hm with rfl | rfl <;> rfl
    rw [hpoint, read_precision (fun c hc => isDigit_of_mem_toDigits hc), digitsValue_toDigits, read,
      if_neg hdigit]

/-- Behind the flags, the digit of a width of zero is another one. -/
theorem read_numeral {l : Layout} (hl : l.width = none) (width : Option Nat) :
    ∃ m, (m = .flags (withWidth l width) ∨ m = .width (withWidth l width)) ∧
      ∀ rest, read (.flags l) (numeral width ++ rest) = read m rest := by
  cases width with
  | none =>
    have hsame : withWidth l none = l := by
      obtain ⟨left, zero, plus, space, w, precision⟩ := l
      obtain rfl : w = none := hl
      simp [withWidth]
    exact ⟨_, Or.inl rfl, fun rest => by rw [hsame]; rfl⟩
  | some n =>
    by_cases hn : n = 0
    · subst hn
      have hzero : withFlags l ['0'] = withWidth l (some 0) := by simp [withFlags, withWidth, hl]
      refine ⟨_, Or.inl rfl, fun rest => ?_⟩
      rw [← hzero, ← read_flags (by decide)]
      rfl
    · obtain ⟨c, digits, hdigits, hc⟩ := exists_toDigits_eq_cons hn
      have hall : ∀ d ∈ c :: digits, isDigit d = true := fun d hd =>
        isDigit_of_mem_toDigits (hdigits ▸ hd)
      obtain ⟨hdigit, hrest⟩ := List.forall_mem_cons.mp hall
      have hflag : c ∉ flagChars := by
        intro hmem
        simp only [flagChars, List.mem_cons, List.not_mem_nil, or_false] at hmem
        rcases hmem with rfl | rfl | rfl | rfl
        · cases hdigit
        · exact hc rfl
        · cases hdigit
        · cases hdigit
      have hvalue : digitsValue (digitValue c) digits = n := by
        have hn := digitsValue_toDigits n
        rw [hdigits, digitsValue, List.foldl_cons, Nat.mul_zero, Nat.zero_add] at hn
        exact hn
      have hfirst : l.widthDigit c = { l with width := some (digitValue c) } := by
        simp [Layout.widthDigit, hl]
      have hwidth : { l with width := some n } = withWidth l (some n) := by simp [withWidth, hn]
      refine ⟨_, Or.inr rfl, fun rest => ?_⟩
      rw [numeral, hdigits, List.cons_append, read, flag?_of_not_mem l hflag, ← hwidth, ← hvalue,
        ← read_width hrest, ← hfirst]
      exact if_pos hdigit

theorem percent_not_mem {flags : List Char} (hflags : ∀ c ∈ flags, c ∈ flagChars)
    (width precision : Option Nat) : '%' ∉ flags ++ numeral width ++ pointed precision := by
  have hdigits (n : Nat) : '%' ∉ Nat.toDigits 10 n := fun h => nomatch isDigit_of_mem_toDigits h
  have hwidth : '%' ∉ numeral width := by
    cases width with
    | none => exact List.not_mem_nil
    | some n => exact hdigits n
  have hprecision : '%' ∉ pointed precision := by
    cases precision with
    | none => exact List.not_mem_nil
    | some n => exact List.not_mem_cons_of_ne_of_not_mem (by decide) (hdigits n)
  simp only [List.mem_append, not_or]
  exact ⟨⟨fun h => absurd (hflags '%' h) (by decide), hwidth⟩, hprecision⟩

/-- A directive is read as what it asks for. -/
theorem ofFormat_format {flags : List Char} (hflags : ∀ c ∈ flags, c ∈ flagChars)
    (width precision : Option Nat) {verb : Char} (hverb : IsVerb verb) :
    ofFormat (format flags width precision verb).toList =
      [.directive (layout flags width precision) verb] := by
  obtain ⟨m, hm, hread⟩ := read_numeral (l := withFlags .default flags) rfl width
  have hlayout : { withWidth (withFlags .default flags) width with precision := precision } =
      layout flags width precision := by
    simp [withWidth, withFlags, Layout.default, layout]
  rw [format, String.toList_ofList, ofFormat, List.cons_append,
    read_percent (head?_directive (percent_not_mem hflags width precision) (fun _ => hverb.percent) []), List.append_assoc,
    List.append_assoc, read_flags hflags, hread, read_pointed hm precision rfl hverb, hlayout]
  rfl

end FormatPiece

end Stencil
