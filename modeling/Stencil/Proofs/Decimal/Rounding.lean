import Stencil.Decimal.Binary64

/-! # Rounding to 53 bits

A count of units is rounded to the nearest multiple of a power of two that leaves 53 bits. What
fits into 53 bits stays as it is, and rounding keeps the order; so integers that become floats
keep theirs, though different ones may meet.
-/
namespace Stencil

theorem roundDiv_mul {den : Nat} (hden : 0 < den) (k : Nat) : roundDiv (k * den) den = k := by
  simp [roundDiv, Nat.mul_div_cancel _ hden, hden]

theorem roundDiv_mono (den : Nat) {a b : Nat} (h : a ≤ b) : roundDiv a den ≤ roundDiv b den := by
  rcases Nat.lt_or_eq_of_le (Nat.div_le_div_right (c := den) h) with hlt | heq
  · exact Nat.le_trans (roundDiv_le a den) (Nat.le_trans hlt (div_le_roundDiv b den))
  · have ha := Nat.div_add_mod a den
    have hb := Nat.div_add_mod b den
    have hrest : a % den ≤ b % den := by
      rw [heq] at ha
      omega
    simp only [roundDiv, heq]
    repeat' split
    all_goals omega

namespace Magnitude

/-- The power of two to whose multiples a count of units is rounded. -/
def spacing (units : Nat) : Nat := units.log2 + 1 - 53

/-- The count of units nearest to the given one that has 53 bits, ties to even. -/
def nearest (units : Nat) : Nat := roundDiv units (2 ^ spacing units) * 2 ^ spacing units

theorem lt_of_spacing (units : Nat) : units < 2 ^ 53 * 2 ^ spacing units := by
  rw [← Nat.pow_add]
  refine Nat.lt_of_lt_of_le Nat.lt_log2_self (Nat.pow_le_pow_right (by decide) ?_)
  rw [spacing]
  omega

theorem le_of_spacing {units : Nat} (h : 0 < spacing units) :
    2 ^ 52 * 2 ^ spacing units ≤ units := by
  have hne : units ≠ 0 := by
    rintro rfl
    exact absurd h (by decide)
  rw [← Nat.pow_add]
  refine Nat.le_trans (Nat.pow_le_pow_right (by decide) ?_) (Nat.log2_self_le hne)
  rw [spacing] at h ⊢
  omega

theorem spacing_le_of_fits {significand : Nat} (h : significand < 2 ^ 53) (shift : Nat) :
    spacing (significand * 2 ^ shift) ≤ shift := by
  refine Nat.le_of_not_lt fun hlt => ?_
  have hlow := le_of_spacing (Nat.lt_of_le_of_lt (Nat.zero_le shift) hlt)
  have hpow : 2 ^ 53 * 2 ^ shift ≤ 2 ^ 52 * 2 ^ spacing (significand * 2 ^ shift) := by
    rw [← Nat.pow_add, ← Nat.pow_add]
    exact Nat.pow_le_pow_right (by decide) (by omega)
  have hhigh := Nat.mul_lt_mul_of_pos_right h (Nat.two_pow_pos shift)
  omega

/-- What has 53 bits is not rounded. -/
theorem nearest_of_lt {significand : Nat} (h : significand < 2 ^ 53) (shift : Nat) :
    nearest (significand * 2 ^ shift) = significand * 2 ^ shift := by
  have hle := spacing_le_of_fits h shift
  have heq : significand * 2 ^ shift =
      significand * 2 ^ (shift - spacing (significand * 2 ^ shift)) *
        2 ^ spacing (significand * 2 ^ shift) := by
    rw [Nat.mul_assoc, ← Nat.pow_add, Nat.sub_add_cancel hle]
  rw [nearest]
  generalize spacing (significand * 2 ^ shift) = s at heq
  rw [heq, roundDiv_mul (Nat.two_pow_pos s)]

theorem nearest_of_le {significand : Nat} (h : significand ≤ 2 ^ 53) (shift : Nat) :
    nearest (significand * 2 ^ shift) = significand * 2 ^ shift := by
  rcases Nat.lt_or_eq_of_le h with hlt | rfl
  · exact nearest_of_lt hlt shift
  · have hcarry : 2 ^ 53 * 2 ^ shift = 2 ^ 52 * 2 ^ (shift + 1) := by
      rw [Nat.pow_succ]
      omega
    rw [hcarry, nearest_of_lt (by decide)]

theorem spacing_mono {a b : Nat} (h : a ≤ b) : spacing a ≤ spacing b := by
  have hlog : a.log2 ≤ b.log2 := by
    by_cases ha : a = 0
    · rw [ha, Nat.log2_zero]
      exact Nat.zero_le _
    · exact (Nat.le_log2 (by omega)).mpr (Nat.le_trans (Nat.log2_self_le ha) h)
  rw [spacing, spacing]
  omega

theorem spacing_le {n bits : Nat} (h : n ≤ 2 ^ bits) (scale : Nat) :
    spacing (n * 2 ^ scale) ≤ bits + scale + 1 - 53 := by
  have hle := spacing_mono (Nat.mul_le_mul_right (2 ^ scale) h)
  rwa [← Nat.pow_add, spacing, spacing, Nat.log2_two_pow] at hle

theorem nearest_mono {a b : Nat} (h : a ≤ b) : nearest a ≤ nearest b := by
  rcases Nat.lt_or_eq_of_le (spacing_mono h) with hlt | heq
  · have hhigh : roundDiv a (2 ^ spacing a) ≤ 2 ^ 53 := by
      have hround := roundDiv_mono (2 ^ spacing a) (Nat.le_of_lt (lt_of_spacing a))
      rwa [roundDiv_mul (Nat.two_pow_pos _)] at hround
    have hlow : 2 ^ 52 ≤ roundDiv b (2 ^ spacing b) := by
      have hround := roundDiv_mono (2 ^ spacing b)
        (le_of_spacing (Nat.lt_of_le_of_lt (Nat.zero_le _) hlt))
      rwa [roundDiv_mul (Nat.two_pow_pos _)] at hround
    calc nearest a ≤ 2 ^ 53 * 2 ^ spacing a := Nat.mul_le_mul_right _ hhigh
      _ = 2 ^ (53 + spacing a) := (Nat.pow_add ..).symm
      _ ≤ 2 ^ (52 + spacing b) := Nat.pow_le_pow_right (by decide) (by omega)
      _ = 2 ^ 52 * 2 ^ spacing b := Nat.pow_add ..
      _ ≤ nearest b := Nat.mul_le_mul_right _ hlow
  · rw [nearest, nearest, heq]
    exact Nat.mul_le_mul_right _ (roundDiv_mono _ h)

theorem value_roundBits (scale num : Nat) :
    (roundBits 53 scale num 1).1 * 2 ^ (roundBits 53 scale num 1).2 =
      nearest (num * 2 ^ scale) := by
  simp only [roundBits, Nat.div_one, Nat.one_mul]
  split
  · rename_i hfull
    show 2 ^ 52 * 2 ^ (spacing (num * 2 ^ scale) + 1) = nearest (num * 2 ^ scale)
    rw [nearest, spacing, hfull, Nat.pow_succ]
    omega
  · rfl

theorem shift_roundBits_le (scale num : Nat) :
    (roundBits 53 scale num 1).2 ≤ spacing (num * 2 ^ scale) + 1 := by
  simp only [roundBits, Nat.div_one]
  split
  · exact Nat.le_refl _
  · exact Nat.le_succ _

end Magnitude

namespace Binary64

open Magnitude (nearest spacing unitsPerOne)

/-- The units of the float that an integer becomes. -/
def intUnits (n : Int) : Int :=
  if n < 0 then -(nearest (n.natAbs * unitsPerOne) : Int) else nearest (n.natAbs * unitsPerOne)

theorem rank_ofParts {negative : Bool} {significand shift : Nat} (bound : significand < 2 ^ 53)
    (canonical : shift = 0 ∨ 2 ^ 52 ≤ significand) (h : shift ≤ 2045) :
    (ofParts negative significand shift bound canonical).rank =
      some (if negative then -((significand * 2 ^ shift : Nat) : Int)
        else ((significand * 2 ^ shift : Nat) : Int)) := by
  rw [ofParts, dif_pos h]
  rfl

/-- No 64-bit integer becomes infinite. -/
theorem rank_ofInt {n : Int} (h : n.natAbs ≤ 2 ^ 63) : (ofInt n).rank = some (intUnits n) := by
  have hshift := Nat.le_trans (Magnitude.shift_roundBits_le 1074 n.natAbs)
    (Nat.succ_le_succ (Magnitude.spacing_le h 1074))
  rw [ofInt, ofRatio, rank_ofParts _ _ (Nat.le_trans hshift (by decide)),
    Magnitude.value_roundBits, intUnits, unitsPerOne]
  simp only [decide_eq_true_eq]

/-- Rounding keeps the order of integers. -/
theorem intUnits_mono {m n : Int} (h : m ≤ n) : intUnits m ≤ intUnits n := by
  have hround {a b : Nat} (hab : a ≤ b) : nearest (a * unitsPerOne) ≤ nearest (b * unitsPerOne) :=
    Magnitude.nearest_mono (Nat.mul_le_mul_right unitsPerOne hab)
  rw [intUnits, intUnits]
  by_cases hm : m < 0
  · by_cases hn : n < 0
    · have habs := hround (show n.natAbs ≤ m.natAbs by omega)
      rw [if_pos hm, if_pos hn]
      omega
    · rw [if_pos hm, if_neg hn]
      omega
  · have habs := hround (show m.natAbs ≤ n.natAbs by omega)
    rw [if_neg hm, if_neg (by omega)]
    omega

theorem intUnits_of_nearest {n : Int}
    (h : nearest (n.natAbs * unitsPerOne) = n.natAbs * unitsPerOne) :
    intUnits n = n * unitsPerOne := by
  rw [intUnits, h, Int.natCast_mul]
  split
  · rw [← Int.neg_mul, Int.ofNat_natAbs_of_nonpos (by omega), Int.neg_neg]
  · rw [Int.natAbs_of_nonneg (by omega)]

/-- An integer of 53 bits is not rounded. -/
theorem intUnits_of_natAbs_le {n : Int} (h : n.natAbs ≤ 2 ^ 53) :
    intUnits n = n * unitsPerOne :=
  intUnits_of_nearest (Magnitude.nearest_of_le h 1074)

end Binary64

end Stencil
