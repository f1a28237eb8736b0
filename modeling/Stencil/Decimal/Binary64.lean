/-! # Binary floating point numbers of 53 bits

A finite number is an integer multiple of `2 ^ (-1074)`, so equality, order and
rounding are integer questions. A magnitude keeps its significand and shift in
the one canonical form: every number has exactly one representation.
-/
namespace Stencil

-- powers are those of the numbers themselves, also where monoids have powers of their own
@[default_instance high]
instance (priority := high) intPow : Pow Int Nat := instPowNat

@[default_instance high]
instance (priority := high) natPow : Pow Nat Nat := instPowNat

/-- The quotient rounded to the nearest integer, an exact half going to the even one. -/
def roundDiv (num den : Nat) : Nat :=
  let quotient := num / den
  let rest := 2 * (num % den)
  if rest < den then quotient
  else if den < rest then quotient + 1
  else if quotient % 2 = 0 then quotient else quotient + 1

theorem div_le_roundDiv (num den : Nat) : num / den ≤ roundDiv num den := by
  simp only [roundDiv]
  split
  · omega
  · split
    · omega
    · split <;> omega

theorem roundDiv_le (num den : Nat) : roundDiv num den ≤ num / den + 1 := by
  simp only [roundDiv]
  split
  · omega
  · split
    · omega
    · split <;> omega

/-- The finite absolute value `significand * 2 ^ shift`, counted in units of `2 ^ (-1074)`. -/
structure Magnitude where
  significand : Nat
  shift : Nat
  significand_lt : significand < 2 ^ 53
  shift_le : shift ≤ 2045
  canonical : shift = 0 ∨ 2 ^ 52 ≤ significand
deriving DecidableEq

namespace Magnitude

def units (m : Magnitude) : Nat := m.significand * 2 ^ m.shift

def unitsPerOne : Nat := 2 ^ 1074

protected def zero : Magnitude := ⟨0, 0, by decide, by decide, .inl rfl⟩

instance : Inhabited Magnitude := ⟨.zero⟩

end Magnitude

/-- Rounds `num / den` to `bits` significant bits over a spacing of at least `2 ^ (-scale)`:
the significand and the shift of the result, the exponent being unbounded above. -/
def roundBits (bits scale num den : Nat) : Nat × Nat :=
  let scaled := num * 2 ^ scale
  let shift := (scaled / den).log2 + 1 - bits
  let significand := roundDiv scaled (den * 2 ^ shift)
  if significand = 2 ^ bits then (2 ^ (bits - 1), shift + 1) else (significand, shift)

private theorem quotient_lt (n shift bits : Nat) (h : n.log2 + 1 ≤ bits + shift) :
    n / 2 ^ shift < 2 ^ bits := by
  rw [Nat.div_lt_iff_lt_mul (Nat.two_pow_pos shift), ← Nat.pow_add]
  exact Nat.lt_of_lt_of_le Nat.lt_log2_self (Nat.pow_le_pow_right (by decide) h)

private theorem le_quotient (n shift bits : Nat) (hn : n ≠ 0) (h : bits + shift ≤ n.log2) :
    2 ^ bits ≤ n / 2 ^ shift := by
  rw [Nat.le_div_iff_mul_le (Nat.two_pow_pos shift), ← Nat.pow_add]
  exact Nat.le_trans (Nat.pow_le_pow_right (by decide) h) (Nat.log2_self_le hn)

/-- The rounded significand fits its bits, and uses all of them unless the spacing is the least. -/
theorem roundBits_canonical (bits scale num den : Nat) (hb : 0 < bits) :
    (roundBits bits scale num den).1 < 2 ^ bits ∧
      ((roundBits bits scale num den).2 = 0 ∨
        2 ^ (bits - 1) ≤ (roundBits bits scale num den).1) := by
  simp only [roundBits]
  split
  · exact ⟨Nat.pow_lt_pow_right (by decide) (by omega), .inr (Nat.le_refl _)⟩
  · rename_i hne
    have hq : num * 2 ^ scale / (den * 2 ^ ((num * 2 ^ scale / den).log2 + 1 - bits)) =
        num * 2 ^ scale / den / 2 ^ ((num * 2 ^ scale / den).log2 + 1 - bits) :=
      (Nat.div_div_eq_div_mul ..).symm
    have hlow := div_le_roundDiv (num * 2 ^ scale)
      (den * 2 ^ ((num * 2 ^ scale / den).log2 + 1 - bits))
    have hhigh := roundDiv_le (num * 2 ^ scale)
      (den * 2 ^ ((num * 2 ^ scale / den).log2 + 1 - bits))
    rw [hq] at hlow hhigh
    constructor
    · have := quotient_lt (num * 2 ^ scale / den) ((num * 2 ^ scale / den).log2 + 1 - bits) bits
        (by omega)
      omega
    · by_cases hs : (num * 2 ^ scale / den).log2 + 1 - bits = 0
      · exact .inl hs
      · right
        have hn : num * 2 ^ scale / den ≠ 0 := by
          intro h
          simp [h] at hs
          omega
        have := le_quotient (num * 2 ^ scale / den) ((num * 2 ^ scale / den).log2 + 1 - bits)
          (bits - 1) hn (by omega)
        omega

/-- A floating point number: the zeros keep their sign, not-a-number is one value. -/
inductive Binary64 where
  | nan
  | infinite (negative : Bool)
  | finite (negative : Bool) (magnitude : Magnitude)
deriving DecidableEq

namespace Binary64

instance : Inhabited Binary64 := ⟨.finite false .zero⟩

/-- The number with the given rounded parts; beyond the largest finite one, infinity. -/
def ofParts (negative : Bool) (significand shift : Nat) (bound : significand < 2 ^ 53)
    (canonical : shift = 0 ∨ 2 ^ 52 ≤ significand) : Binary64 :=
  if h : shift ≤ 2045 then .finite negative ⟨significand, shift, bound, h, canonical⟩
  else .infinite negative

private theorem parts_canonical (num den : Nat) :
    (roundBits 53 1074 num den).1 < 2 ^ 53 ∧
      ((roundBits 53 1074 num den).2 = 0 ∨ 2 ^ 52 ≤ (roundBits 53 1074 num den).1) :=
  roundBits_canonical 53 1074 num den (by decide)

/-- The number nearest to `± num / den`, ties to even. -/
def ofRatio (negative : Bool) (num den : Nat) : Binary64 :=
  ofParts negative _ _ (parts_canonical num den).1 (parts_canonical num den).2

def ofInt (n : Int) : Binary64 := ofRatio (decide (n < 0)) n.natAbs 1

/-- A ratio rounded to 24 bits first, the result being exact in 53 bits. -/
def ofRatioSingle (negative : Bool) (num den : Nat) : Binary64 :=
  let r := roundBits 24 149 num den
  if r.2 ≤ 253 then ofRatio negative (r.1 * 2 ^ r.2) (2 ^ 149) else .infinite negative

/-- Coefficient and power of ten, read exactly and rounded once. The exponent is first brought
into a range outside of which the result is zero or infinite whatever it is. -/
def ofDecimal (negative : Bool) (coefficient : Nat) (exponent : Int) : Binary64 :=
  if coefficient = 0 then .finite negative .zero
  else
    let digits : Int := (Nat.toDigits 10 coefficient).length
    if 400 < exponent + digits then .infinite negative
    else if exponent + digits < -400 then .finite negative .zero
    else if 0 ≤ exponent then ofRatio negative (coefficient * 10 ^ exponent.toNat) 1
    else ofRatio negative coefficient (10 ^ (-exponent).toNat)

def ofDecimalSingle (negative : Bool) (coefficient : Nat) (exponent : Int) : Binary64 :=
  if coefficient = 0 then .finite negative .zero
  else
    let digits : Int := (Nat.toDigits 10 coefficient).length
    if 400 < exponent + digits then .infinite negative
    else if exponent + digits < -400 then .finite negative .zero
    else if 0 ≤ exponent then ofRatioSingle negative (coefficient * 10 ^ exponent.toNat) 1
    else ofRatioSingle negative coefficient (10 ^ (-exponent).toNat)

def isNaN : Binary64 → Bool
  | nan => true
  | _ => false

def isFinite : Binary64 → Bool
  | finite .. => true
  | _ => false

def isNegative : Binary64 → Bool
  | nan => false
  | infinite negative | finite negative _ => negative

/-- A position on the integer line that orders all numbers but not-a-number: the finite ones stand
at their count of units, the infinite ones beyond all of these. -/
def rank : Binary64 → Option Int
  | nan => none
  | infinite negative => some (if negative then -(2 ^ 2100) else 2 ^ 2100)
  | finite negative m => some (if negative then -(m.units : Int) else m.units)

def order (x y : Binary64) : Option Ordering :=
  match x.rank, y.rank with
  | some a, some b => some (compare a b)
  | _, _ => none

/-- Numeric equality: the zeros are equal, and not-a-number differs from itself. -/
def numEq (x y : Binary64) : Bool := x.order y == some .eq

def isIntegral : Binary64 → Bool
  | finite _ m => m.units % Magnitude.unitsPerOne == 0
  | _ => false

def isWithin (bound : Nat) : Binary64 → Bool
  | finite _ m => m.units < bound * Magnitude.unitsPerOne
  | _ => false

/-- The integer part, rounding toward zero and stopping at the ends of the signed 64-bit range.
Not-a-number gives zero. -/
def truncate : Binary64 → Int
  | nan => 0
  | infinite negative => if negative then -(2 ^ 63) else 2 ^ 63 - 1
  | finite negative m =>
    let whole : Int := m.units / Magnitude.unitsPerOne
    max (-(2 ^ 63)) (min (2 ^ 63 - 1) (if negative then -whole else whole))

/-- A finite sum of signed unit counts, over the given denominator. -/
def ofUnits (n : Int) (den : Nat) (negativeZero : Bool) : Binary64 :=
  if n = 0 then .finite negativeZero .zero else ofRatio (decide (n < 0)) n.natAbs den

/-- The rounded sum. Opposite infinities have none; a zero sum is negative if both parts are. -/
def add : Binary64 → Binary64 → Binary64
  | nan, _ | _, nan => nan
  | infinite a, infinite b => if a == b then infinite a else nan
  | infinite a, finite .. | finite .., infinite a => infinite a
  | finite a m, finite b n =>
    let signed (negative : Bool) (k : Magnitude) : Int :=
      if negative then -(k.units : Int) else k.units
    ofUnits (signed a m + signed b n) Magnitude.unitsPerOne (a && b)

def mul : Binary64 → Binary64 → Binary64
  | nan, _ | _, nan => nan
  | infinite a, infinite b => infinite (a != b)
  | infinite a, finite b m | finite b m, infinite a =>
    if m.units = 0 then nan else infinite (a != b)
  | finite a m, finite b n =>
    ofRatio (a != b) (m.units * n.units) (Magnitude.unitsPerOne * Magnitude.unitsPerOne)

def div : Binary64 → Binary64 → Binary64
  | nan, _ | _, nan | infinite _, infinite _ => nan
  | infinite a, finite b _ => infinite (a != b)
  | finite a _, infinite b => finite (a != b) .zero
  | finite a m, finite b n =>
    if n.units = 0 then (if m.units = 0 then nan else infinite (a != b))
    else ofRatio (a != b) m.units n.units

end Binary64

end Stencil
