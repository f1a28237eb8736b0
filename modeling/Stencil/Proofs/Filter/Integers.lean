import Mathlib.Data.Rat.Cast.Order
import Mathlib.Tactic.FieldSimp
import Stencil.Filter.Builtin
import Stencil.Proofs.Decimal.Integer
import Stencil.Proofs.Decimal.Whole

/-! # Integers as arguments

Which values are taken as integers, and as which ones. A value denotes a rational number; integers
of 64 bits are taken for what they are, but each of the two tests for floats is wrong at one end of
the range.
-/
namespace Stencil

open Magnitude (unitsPerOne)

/-- The number that a value stands for: that of an integer or a finite float, or the one that a
text spells between white space. -/
inductive Value.Denotes : Value → ℚ → Prop
  | int (n : Int64) : Value.Denotes (.int n) n.toInt
  | float (negative : Bool) (m : Magnitude) :
      Value.Denotes (.float (.finite negative m))
        ((if negative then -1 else 1) * (m.units / unitsPerOne))
  | text {s n} : SpellsInt (Text.trim s.toList) n → Value.Denotes (.text s) n

namespace Value

theorem denotes_int_iff {n : Int64} {k : Int} : (int n).Denotes k ↔ n.toInt = k := by
  constructor
  · intro h
    generalize hq : (k : ℚ) = q at h
    cases h
    exact_mod_cast hq.symm
  · rintro rfl
    exact .int n

theorem denotes_text_iff {s : String} {k : Int} :
    (text s).Denotes k ↔ SpellsInt (Text.trim s.toList) k := by
  constructor
  · intro h
    generalize hq : (k : ℚ) = q at h
    cases h with
    | text hs =>
      have hk := Int.cast_injective hq
      exact hk ▸ hs
  · exact .text

theorem denotes_finite_iff {negative : Bool} {m : Magnitude} {q : ℚ} :
    (float (.finite negative m)).Denotes q ↔
      (Binary64.signedUnits negative m : ℚ) = q * unitsPerOne := by
  have hne : (unitsPerOne : ℚ) ≠ 0 := Nat.cast_ne_zero.mpr Magnitude.unitsPerOne_pos.ne'
  have hunits : (if negative then -1 else 1) * ((m.units : ℚ) / unitsPerOne) =
      (Binary64.signedUnits negative m : ℚ) / unitsPerOne := by
    rw [Binary64.signedUnits]
    cases negative with
    | true => rw [if_pos rfl, if_pos rfl, Int.cast_neg, Int.cast_natCast, neg_one_mul, neg_div]
    | false => rw [if_neg (by decide), if_neg (by decide), Int.cast_natCast, one_mul]
  rw [← div_eq_iff hne, ← hunits]
  constructor
  · intro h
    cases h
    rfl
  · rintro rfl
    exact .float negative m

theorem denotes_float_iff {x : Binary64} {k : Int} : (float x).Denotes k ↔ x.IsInteger k := by
  cases x with
  | nan => exact iff_of_false (fun h => nomatch h) id
  | infinite negative => exact iff_of_false (fun h => nomatch h) id
  | finite negative m =>
    rw [denotes_finite_iff, Binary64.IsInteger]
    exact_mod_cast Iff.rfl

/-- A value denotes one number at most. -/
theorem Denotes.unique {v : Value} {p q : ℚ} (hp : v.Denotes p) (hq : v.Denotes q) : p = q := by
  cases hp with
  | int n => cases hq; rfl
  | float negative m => cases hq; rfl
  | text hs =>
    cases hq with
    | text hs' =>
      have heq := (readInt?_eq_some_iff.mpr hs).symm.trans (readInt?_eq_some_iff.mpr hs')
      rw [Option.some.inj heq]

/-- The test for floats lets one pass that is out of range. -/
theorem toInt?_float_iff {x : Binary64} {n : Int64} :
    (float x).toInt? = some n ↔
      x.IsInteger n.toInt ∨ (x.IsInteger (2 ^ 63) ∧ n.toInt = 2 ^ 63 - 1) := by
  have hlow := Int64.le_toInt n
  have hhigh := Int64.toInt_lt n
  rw [toInt?]
  constructor
  · intro h
    split at h
    · rename_i hnum
      obtain ⟨k, hk, hk', hx⟩ := Binary64.numEq_ofInt_truncate_iff.mp hnum
      have hn := Option.some.inj h
      rw [hx.truncate_eq] at hn
      rcases Binary64.clamp_cases k with ⟨hout, -⟩ | ⟨-, hlt, hclamp⟩ | ⟨hend, hclamp⟩
      · omega
      · left
        rwa [← hn, hclamp, Int64.toInt_ofInt_of_le hk hlt]
      · right
        rw [← hn, hclamp, Int64.toInt_ofInt_of_le (by decide) (by decide)]
        exact ⟨Int.le_antisymm hk' hend ▸ hx, rfl⟩
    · cases h
  · rintro (hx | ⟨hx, hn⟩)
    · have hnum := Binary64.numEq_ofInt_truncate_iff.mpr ⟨n.toInt, hlow, Int.le_of_lt hhigh, hx⟩
      rw [if_pos hnum, hx.truncate_eq, Binary64.clamp_of_mem hlow hhigh, Int64.ofInt_toInt]
    · have hnum := Binary64.numEq_ofInt_truncate_iff.mpr ⟨2 ^ 63, by decide, by decide, hx⟩
      have hclamp : Binary64.clamp (2 ^ 63) = n.toInt := hn.symm
      rw [if_pos hnum, hx.truncate_eq, hclamp, Int64.ofInt_toInt]

/-- The test of the integer directives refuses one that is in range. -/
theorem formatInt?_float_iff {x : Binary64} {n : Int64} :
    (float x).formatInt? = some n ↔ x.IsInteger n.toInt ∧ n.toInt ≠ -(2 ^ 63) := by
  have hlow := Int64.le_toInt n
  have hhigh := Int64.toInt_lt n
  rw [formatInt?]
  constructor
  · intro h
    split at h
    · rename_i htest
      obtain ⟨k, hk, hk', hx⟩ := Binary64.isIntegral_and_isWithin_iff.mp htest
      have hn := Option.some.inj h
      rw [hx.truncate_eq, Binary64.clamp_of_mem (Int.le_of_lt hk) hk'] at hn
      rw [← hn, Int64.toInt_ofInt_of_le (Int.le_of_lt hk) hk']
      exact ⟨hx, by omega⟩
    · cases h
  · rintro ⟨hx, hne⟩
    have htest := Binary64.isIntegral_and_isWithin_iff.mpr ⟨n.toInt, by omega, hhigh, hx⟩
    rw [if_pos htest, hx.truncate_eq, Binary64.clamp_of_mem hlow hhigh, Int64.ofInt_toInt]

theorem toInt?_eq_some_iff {v : Value} {n : Int64} :
    v.toInt? = some n ↔
      v.Denotes n.toInt ∨ (∃ x, v = float x ∧ v.Denotes (2 ^ 63) ∧ n.toInt = 2 ^ 63 - 1) := by
  cases v with
  | int m =>
    rw [denotes_int_iff, Int64.toInt_inj]
    simp [toInt?]
  | float x =>
    have hend : (float x).Denotes (2 ^ 63) ↔ x.IsInteger (2 ^ 63) := by
      rw [← denotes_float_iff, Int.cast_pow, Int.cast_ofNat]
    rw [toInt?_float_iff, denotes_float_iff, hend]
    simp
  | text s =>
    rw [denotes_text_iff]
    simp [toInt?, readInt64?_eq_some_iff]
  | absent | bool | seq | record | object | callable =>
    refine iff_of_false (fun h => nomatch h) ?_
    rintro (h | ⟨x, h, -⟩)
    · cases h
    · cases h

theorem denotes_of_toInt? {v : Value} {n : Int64} (h : v.toInt? = some n) {p : ℚ}
    (hp : v.Denotes p) (hend : p ≠ 2 ^ 63) : v.Denotes n.toInt := by
  rcases toInt?_eq_some_iff.mp h with hn | ⟨x, -, hx, -⟩
  · exact hn
  · exact absurd (hp.unique hx) hend

end Value

theorem Parameter.int_eq_ok_iff {v : Value} {n : Int64} :
    Parameter.int (some v) = .ok n ↔ v.toInt? = some n := by
  rw [Parameter.int, Parameter.required]
  cases v.toInt? <;> simp

/-- Two arguments are taken one behind the other. -/
theorem Parameter.take_pair {α β : Type} {p : Parameter α} {q : Parameter β} {v d : Value} {a : α}
    {b : β} (hp : p (some v) = .ok a) (hq : q (some d) = .ok b) :
    (do return (← p.take, ← q.take) : Arguments (α × β)) [v, d] = .ok ((a, b), []) := by
  have hfirst (rest : List Value) : p.take (v :: rest) = .ok (a, rest) := by
    rw [take, hp]
    rfl
  have hsecond (rest : List Value) : q.take (d :: rest) = .ok (b, rest) := by
    rw [take, hq]
    rfl
  show (p.take [v, d] >>= fun r => q.take r.2 >>= fun r' => pure ((r.1, r'.1), r'.2)) = _
  rw [hfirst]
  show (q.take [d] >>= fun r' => pure ((a, r'.1), r'.2)) = _
  rw [hsecond]
  rfl

theorem Directive.apply_float_eq_ok_iff {l : Layout} {verb : Char} {base : Nat}
    (hbase : base? verb = some base) {x : Binary64} {text : List Char} :
    apply l verb (.float x) = .ok text ↔
      ∃ n, (Value.float x).formatInt? = some n ∧ text = showInt l base (verb = 'X') n := by
  have hs : ¬ (verb = 's' ∨ verb = 'v') := by
    rintro (rfl | rfl)
    · cases hbase
    · cases hbase
  have hq : verb ≠ 'q' := by
    rintro rfl
    cases hbase
  rw [apply, if_neg hs, if_neg hq, hbase]
  cases (Value.float x).formatInt? with
  | none => simp
  | some n => simp [eq_comm]

namespace Filter

theorem divisibleBy_eq {v d : Value} {n e : Int64} (hv : v.toInt? = some n)
    (hd : d.toInt? = some e) (he : e.toInt ≠ 0) :
    divisibleBy [v, d] = .ok (.bool (n.toInt % e.toInt == 0)) := by
  have hargs := Parameter.take_pair (Parameter.int_eq_ok_iff.mpr hv)
    (Parameter.int_eq_ok_iff.mpr hd)
  rw [divisibleBy, of, hargs]
  exact if_neg he

end Filter

/-- Conversions to integers are exact but for two floats at the ends of the range. A value is
taken as the 64-bit integer that it denotes, and only if it denotes one; but the float behind the
largest of them is taken too, as that largest one. Integer directives take the floats that are
integers of 64 bits, but for the least of them. What is taken for what it denotes is divisible by
what it is a multiple of. -/
theorem conversions_exact_but_at_ends (v d : Value) (n : Int64) (p q : ℚ) (l : Layout)
    (verb : Char) (x : Binary64) :
    (Parameter.int (some v) = .ok n ↔
      v.Denotes n.toInt ∨ (∃ x, v = .float x ∧ v.Denotes (2 ^ 63) ∧ n.toInt = 2 ^ 63 - 1)) ∧
    (∀ base text, Directive.base? verb = some base →
      (Directive.apply l verb (.float x) = .ok text ↔ ∃ n : Int64, (Value.float x).Denotes n.toInt ∧
        n.toInt ≠ -(2 ^ 63) ∧ text = Directive.showInt l base (verb = 'X') n)) ∧
    ((∃ n, Parameter.int (some v) = .ok n) → (∃ n, Parameter.int (some d) = .ok n) →
      v.Denotes p → d.Denotes q → p ≠ 2 ^ 63 → q ≠ 2 ^ 63 → q ≠ 0 →
      ∃ b, Filter.divisibleBy [v, d] = .ok (.bool b) ∧ (b = true ↔ ∃ k : ℤ, p = k * q)) := by
  refine ⟨?_, fun base text hbase => ?_, ?_⟩
  · rw [Parameter.int_eq_ok_iff, Value.toInt?_eq_some_iff]
  · rw [Directive.apply_float_eq_ok_iff hbase]
    simp only [Value.formatInt?_float_iff, Value.denotes_float_iff, and_assoc]
  · rintro ⟨n, hn⟩ ⟨e, he⟩ hp hq hpend hqend hzero
    have hpn := hp.unique (Value.denotes_of_toInt? (Parameter.int_eq_ok_iff.mp hn) hp hpend)
    have hqe := hq.unique (Value.denotes_of_toInt? (Parameter.int_eq_ok_iff.mp he) hq hqend)
    have hne : e.toInt ≠ 0 := by
      rintro h
      rw [hqe, h, Int.cast_zero] at hzero
      exact hzero rfl
    refine ⟨_, Filter.divisibleBy_eq (Parameter.int_eq_ok_iff.mp hn)
      (Parameter.int_eq_ok_iff.mp he) hne, ?_⟩
    rw [beq_iff_eq, ← Int.dvd_iff_emod_eq_zero, hpn, hqe, dvd_iff_exists_eq_mul_left]
    exact_mod_cast Iff.rfl

/-- The least integer is a multiple of minus one, although the quotient is out of range. -/
theorem conversions_exact_but_at_ends_least :
    (∃ n, Parameter.int (some (.int Int64.minValue)) = .ok n) ∧
    (∃ n, Parameter.int (some (.int (-1))) = .ok n) ∧
    ∃ b, Filter.divisibleBy [.int Int64.minValue, .int (-1)] = .ok (.bool b) ∧ b = true := by
  have hleast : Parameter.int (some (.int Int64.minValue)) = .ok Int64.minValue := rfl
  have hminus : Parameter.int (some (.int (-1))) = .ok (-1) := rfl
  have hmin : Int64.minValue.toInt = -(2 ^ 63) := rfl
  have hone : (-1 : Int64).toInt = -1 := rfl
  have hp := Value.Denotes.int Int64.minValue
  have hq := Value.Denotes.int (-1)
  rw [hmin] at hp
  rw [hone] at hq
  obtain ⟨b, hb, hmultiple⟩ := (conversions_exact_but_at_ends _ _ 0 _ _ .default 'd' .nan).2.2
    ⟨_, hleast⟩ ⟨_, hminus⟩ hp hq (by norm_num) (by norm_num) (by norm_num)
  exact ⟨⟨_, hleast⟩, ⟨_, hminus⟩, b, hb, hmultiple.mpr ⟨2 ^ 63, by norm_num⟩⟩

/-- The float behind the largest integer counts as odd, and the least integer as none at all. -/
theorem conversions_wrong_at_ends :
    (Value.ofNat (2 ^ 63)).Denotes (2 ^ 63) ∧
    Parameter.int (some (.ofNat (2 ^ 63))) = .ok Int64.maxValue ∧
    Filter.divisibleBy [.ofNat (2 ^ 63), .int 2] = .ok (.bool false) ∧
    (Value.float (.ofInt (-(2 ^ 63)))).Denotes (-(2 ^ 63)) ∧
    Directive.apply .default 'd' (.float (.ofInt (-(2 ^ 63)))) =
      .error (.notInteger 'd' .number) := by
  have hlarge : Value.ofNat (2 ^ 63) = .float (.ofInt (2 ^ 63)) := if_neg (by decide)
  obtain ⟨x, hx⟩ : ∃ x, Binary64.ofInt (2 ^ 63) = x := ⟨_, rfl⟩
  obtain ⟨y, hy⟩ : ∃ y, Binary64.ofInt (-(2 ^ 63)) = y := ⟨_, rfl⟩
  have hend := Binary64.isInteger_of_ofInt (Or.inl rfl) hx
  have hleast := Binary64.isInteger_of_ofInt (Or.inr rfl) hy
  rw [hlarge, hx, hy]
  have hmax : (Value.float x).toInt? = some Int64.maxValue :=
    Value.toInt?_float_iff.mpr (Or.inr ⟨hend, rfl⟩)
  have hnone : (Value.float y).formatInt? = none := by
    refine Option.eq_none_iff_forall_ne_some.mpr fun n h => ?_
    obtain ⟨hn, hne⟩ := Value.formatInt?_float_iff.mp h
    exact hne (hn.unique hleast)
  refine ⟨?_, Parameter.int_eq_ok_iff.mpr hmax, ?_, ?_, ?_⟩
  · have hd := Value.denotes_float_iff.mpr hend
    rwa [Int.cast_pow, Int.cast_ofNat] at hd
  · have htwo : (Value.int 2).toInt? = some 2 := rfl
    have hodd : (Int64.maxValue.toInt % (2 : Int64).toInt == 0) = false := by decide
    rw [Filter.divisibleBy_eq hmax htwo (by decide), hodd]
  · have hd := Value.denotes_float_iff.mpr hleast
    rwa [Int.cast_neg, Int.cast_pow, Int.cast_ofNat] at hd
  · rw [Directive.apply, if_neg (by decide), if_neg (by decide)]
    have hbase : Directive.base? 'd' = some 10 := rfl
    simp only [hbase, hnone]
    rfl

end Stencil
