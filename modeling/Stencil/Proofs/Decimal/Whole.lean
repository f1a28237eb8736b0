import Stencil.Proofs.Decimal.Rounding

/-! # Floats that are integers

The integer part of a float is a float again, so truncating and rounding back tells whether a
float is an integer. At the upper end of the 64-bit range the test is deceived: the largest
integer is rounded to the float behind it.
-/
namespace Stencil

open Magnitude (nearest unitsPerOne)

namespace Magnitude

theorem unitsPerOne_pos : 0 < unitsPerOne := by
  unfold unitsPerOne
  apply Nat.two_pow_pos

/-- The integer part has no more bits than the number. -/
theorem nearest_whole (m : Magnitude) :
    nearest (m.units / unitsPerOne * unitsPerOne) = m.units / unitsPerOne * unitsPerOne := by
  by_cases hshift : 1074 ≤ m.shift
  · have hdvd : unitsPerOne ∣ m.units := by
      unfold unitsPerOne
      refine Nat.dvd_trans ?_ (Nat.dvd_mul_left _ m.significand)
      apply Nat.pow_dvd_pow
      exact hshift
    rw [Nat.div_mul_cancel hdvd]
    exact nearest_of_lt m.significand_lt m.shift
  · have hpow : 2 ^ m.shift ≤ unitsPerOne := by
      unfold unitsPerOne
      apply Nat.pow_le_pow_right (by decide)
      omega
    have hle : m.units ≤ unitsPerOne * 2 ^ 53 := by
      rw [Nat.mul_comm]
      exact Nat.mul_le_mul (Nat.le_of_lt m.significand_lt) hpow
    exact nearest_of_le (Nat.div_le_of_le_mul hle) 1074

end Magnitude

namespace Binary64

/-- A finite number as a count of units. -/
def signedUnits (negative : Bool) (m : Magnitude) : Int := if negative then -m.units else m.units

/-- The integer part of a finite number, rounding toward zero. -/
def wholePart (negative : Bool) (m : Magnitude) : Int :=
  let whole : Nat := m.units / unitsPerOne
  if negative then -whole else whole

/-- The nearest integer of 64 bits. -/
def clamp (k : Int) : Int := max (-(2 ^ 63)) (min (2 ^ 63 - 1 : Int) k)

/-- The number is the integer `k`. -/
def IsInteger (x : Binary64) (k : Int) : Prop :=
  match x with
  | finite negative m => signedUnits negative m = k * unitsPerOne
  | _ => False

variable {negative : Bool} {m : Magnitude} {x : Binary64} {k : Int}

theorem isInteger_iff : x.IsInteger k ↔ x.isFinite = true ∧ x.rank = some (k * unitsPerOne) := by
  cases x with
  | nan => exact iff_of_false id fun h => Bool.false_ne_true h.1
  | infinite negative => exact iff_of_false id fun h => Bool.false_ne_true h.1
  | finite negative m =>
    simp only [IsInteger, isFinite, rank, signedUnits, true_and, Option.some.injEq]

theorem clamp_cases (k : Int) :
    (k < -(2 ^ 63) ∧ clamp k = -(2 ^ 63)) ∨ (-(2 ^ 63) ≤ k ∧ k < 2 ^ 63 ∧ clamp k = k) ∨
    (2 ^ 63 ≤ k ∧ clamp k = 2 ^ 63 - 1) := by
  rw [clamp]
  omega

theorem clamp_of_mem (h : -(2 ^ 63) ≤ k) (h' : k < 2 ^ 63) : clamp k = k := by
  rw [clamp]
  omega

theorem truncate_finite (negative : Bool) (m : Magnitude) :
    truncate (finite negative m) = clamp (wholePart negative m) := rfl

theorem rank_finite (negative : Bool) (m : Magnitude) :
    (finite negative m).rank = some (signedUnits negative m) := rfl

theorem natAbs_signedUnits (negative : Bool) (m : Magnitude) :
    (signedUnits negative m).natAbs = m.units := by
  rw [signedUnits]
  split <;> omega

theorem natAbs_wholePart (negative : Bool) (m : Magnitude) :
    (wholePart negative m).natAbs = m.units / unitsPerOne := by
  rw [wholePart]
  generalize m.units / unitsPerOne = whole
  split <;> omega

theorem intUnits_wholePart (negative : Bool) (m : Magnitude) :
    intUnits (wholePart negative m) = wholePart negative m * unitsPerOne := by
  refine intUnits_of_nearest ?_
  rw [natAbs_wholePart]
  exact m.nearest_whole

theorem IsInteger.units_eq (h : (finite negative m).IsInteger k) :
    m.units = k.natAbs * unitsPerOne := by
  have habs := congrArg Int.natAbs h
  rwa [natAbs_signedUnits, Int.natAbs_mul, Int.natAbs_natCast] at habs

theorem IsInteger.wholePart_eq (h : (finite negative m).IsInteger k) :
    wholePart negative m = k := by
  have hunits : m.units / unitsPerOne = k.natAbs := by
    rw [h.units_eq, Nat.mul_div_cancel _ Magnitude.unitsPerOne_pos]
  have hpos : (0 : Int) < unitsPerOne := Int.natCast_pos.mpr Magnitude.unitsPerOne_pos
  rw [IsInteger, signedUnits] at h
  rw [wholePart, hunits]
  cases negative with
  | true =>
    have hsign : k * unitsPerOne ≤ 0 * unitsPerOne := by
      rw [← h, if_pos rfl]
      omega
    have hle := Int.le_of_mul_le_mul_right hsign hpos
    rw [if_pos rfl]
    omega
  | false =>
    have hsign : 0 * unitsPerOne ≤ k * unitsPerOne := by
      rw [← h, if_neg (by decide)]
      omega
    have hle := Int.le_of_mul_le_mul_right hsign hpos
    rw [if_neg (by decide)]
    omega

theorem IsInteger.unique {k' : Int} (h : x.IsInteger k) (h' : x.IsInteger k') : k = k' := by
  cases x with
  | nan => cases h
  | infinite negative => cases h
  | finite negative m => exact h.wholePart_eq.symm.trans h'.wholePart_eq

theorem isInteger_wholePart (h : m.units % unitsPerOne = 0) :
    (finite negative m).IsInteger (wholePart negative m) := by
  have hunits : (m.units : Int) = (m.units / unitsPerOne : Nat) * unitsPerOne := by
    rw [← Int.natCast_mul, Nat.div_mul_cancel (Nat.dvd_of_mod_eq_zero h)]
  rw [IsInteger, signedUnits, wholePart]
  cases negative with
  | true =>
    rw [if_pos rfl, if_pos rfl, Int.neg_mul, ← hunits]
  | false =>
    rw [if_neg (by decide), if_neg (by decide), ← hunits]

/-- The largest 64-bit integer is rounded up. -/
theorem intUnits_max : intUnits (2 ^ 63 - 1) = 2 ^ 63 * unitsPerOne := by decide +kernel

theorem intUnits_min : intUnits (-(2 ^ 63)) = -(2 ^ 63) * unitsPerOne := by decide +kernel

theorem isInteger_of_ofInt (h : k = 2 ^ 63 ∨ k = -(2 ^ 63)) (hx : ofInt k = x) :
    x.IsInteger k := by
  rw [isInteger_iff, ← hx]
  rcases h with rfl | rfl
  · exact ⟨by decide +kernel, by decide +kernel⟩
  · exact ⟨by decide +kernel, by decide +kernel⟩

theorem numEq_ofInt_iff (h : k.natAbs ≤ 2 ^ 63) :
    (ofInt k).numEq x = true ↔ x.rank = some (intUnits k) := by
  rw [numEq, order, rank_ofInt h]
  cases x.rank with
  | none => simp
  | some r =>
    show (some (compare (intUnits k) r) == some .eq) = true ↔ some r = some (intUnits k)
    rw [beq_iff_eq, Option.some.injEq, Option.some.injEq, Std.compare_eq_iff_eq]
    exact eq_comm

theorem natAbs_truncate_le (x : Binary64) : x.truncate.natAbs ≤ 2 ^ 63 := by
  cases x with
  | nan => decide
  | infinite negative => cases negative <;> decide
  | finite negative m =>
    rw [truncate_finite, clamp]
    omega

/-- Rounding the truncated number gives the number again if it is an integer of 64 bits, and also
if it is the integer behind the largest of these. -/
theorem numEq_ofInt_truncate_iff :
    (ofInt x.truncate).numEq x = true ↔ ∃ k, -(2 ^ 63) ≤ k ∧ k ≤ 2 ^ 63 ∧ x.IsInteger k := by
  rw [numEq_ofInt_iff x.natAbs_truncate_le]
  cases x with
  | nan => simp [rank, IsInteger]
  | infinite negative =>
    refine iff_of_false ?_ fun ⟨k, _, _, h⟩ => h
    cases negative with
    | true =>
      show ¬ some (-(2 ^ 2100) : Int) = some (intUnits (-(2 ^ 63)))
      rw [Option.some.injEq, intUnits_min]
      decide +kernel
    | false =>
      show ¬ some (2 ^ 2100 : Int) = some (intUnits (2 ^ 63 - 1))
      rw [Option.some.injEq, intUnits_max]
      decide +kernel
  | finite negative m =>
    rw [truncate_finite, rank_finite, Option.some.injEq]
    constructor
    · intro h
      rcases clamp_cases (wholePart negative m) with
        ⟨hlow, hclamp⟩ | ⟨hlow, hhigh, hclamp⟩ | ⟨hhigh, hclamp⟩
      · rw [hclamp, intUnits_min] at h
        have hwhole := IsInteger.wholePart_eq h
        omega
      · rw [hclamp, intUnits_wholePart] at h
        exact ⟨wholePart negative m, hlow, Int.le_of_lt hhigh, h⟩
      · rw [hclamp, intUnits_max] at h
        exact ⟨2 ^ 63, by decide, Int.le_refl _, h⟩
    · rintro ⟨k, hlow, hhigh, h⟩
      have hunits := intUnits_wholePart negative m
      rw [h.wholePart_eq] at hunits ⊢
      rcases clamp_cases k with ⟨hout, -⟩ | ⟨-, -, hclamp⟩ | ⟨hend, hclamp⟩
      · omega
      · rw [hclamp, hunits]
        exact h
      · rw [hclamp, intUnits_max]
        exact Int.le_antisymm hhigh hend ▸ h

theorem IsInteger.truncate_eq (h : x.IsInteger k) : x.truncate = clamp k := by
  cases x with
  | nan => cases h
  | infinite negative => cases h
  | finite negative m => rw [truncate_finite, h.wholePart_eq]

/-- The test that looks at the digits instead is right within its bounds. -/
theorem isIntegral_and_isWithin_iff :
    (x.isIntegral && x.isWithin (2 ^ 63)) = true ↔
      ∃ k, -(2 ^ 63) < k ∧ k < 2 ^ 63 ∧ x.IsInteger k := by
  cases x with
  | nan => exact iff_of_false (by decide) fun ⟨k, _, _, h⟩ => h
  | infinite negative => exact iff_of_false (by cases negative <;> decide) fun ⟨k, _, _, h⟩ => h
  | finite negative m =>
    rw [isIntegral, isWithin, Bool.and_eq_true, beq_iff_eq, decide_eq_true_eq]
    constructor
    · rintro ⟨hwhole, hlt⟩
      have habs := natAbs_wholePart negative m
      have hbound := (Nat.div_lt_iff_lt_mul Magnitude.unitsPerOne_pos).mpr hlt
      exact ⟨wholePart negative m, by omega, by omega, isInteger_wholePart hwhole⟩
    · rintro ⟨k, hlow, hhigh, h⟩
      rw [h.units_eq]
      exact ⟨Nat.mul_mod_left _ _,
        Nat.mul_lt_mul_of_pos_right (by omega) Magnitude.unitsPerOne_pos⟩

end Binary64

end Stencil
