import Mathlib.Data.String.Basic
import Stencil.Proofs.Decimal.Whole
import Stencil.Proofs.Value.Coherence

/-! # How far comparison is transitive

Integers are compared as they are, but next to a float as the floats that they become. So two of
them may both equal a float and still differ from each other: such a float blurs them. Nothing
else keeps comparison from being transitive.
-/
namespace Stencil

namespace Binary64

/-- The float is what two different integers become. -/
def Blurs (x : Binary64) (m n : Int64) : Prop :=
  m ≠ n ∧ (Value.int m).equal (.float x) = true ∧ (Value.int n).equal (.float x) = true

theorem Blurs.symm {x : Binary64} {m n : Int64} (h : x.Blurs m n) : x.Blurs n m :=
  ⟨h.1.symm, h.2.2, h.2.1⟩

/-- An integer of at most 53 bits keeps apart from those next to it. -/
theorem le_natAbs_of_intUnits_eq {m n : Int} (h : intUnits m = intUnits n) (hne : m ≠ n) :
    2 ^ 53 ≤ m.natAbs := by
  by_contra hsmall
  have hpos : (0 : Int) < Magnitude.unitsPerOne :=
    Int.natCast_pos.mpr Magnitude.unitsPerOne_pos
  have hm := intUnits_of_natAbs_le (n := m) (by omega)
  rcases Int.lt_or_gt_of_ne hne with hlt | hgt
  · have hnext := intUnits_of_natAbs_le (n := m + 1) (by omega)
    have hmono := intUnits_mono (Int.add_one_le_iff.mpr hlt)
    rw [← h, hm, hnext] at hmono
    have := Int.le_of_mul_le_mul_right hmono hpos
    omega
  · have hnext := intUnits_of_natAbs_le (n := m - 1) (by omega)
    have hmono := intUnits_mono (Int.le_sub_one_iff.mpr hgt)
    rw [← h, hm, hnext] at hmono
    have := Int.le_of_mul_le_mul_right hmono hpos
    omega

end Binary64

namespace Value

variable {a b c u v w : Value} {r s t : Int} {o : Ordering}

/-- Two integers apart, the order of numbers is that of their ranks. -/
theorem order_of_rank? (ha : a.rank? = some r) (hb : b.rank? = some s) :
    order a b = some (compare r s) ∨ ∃ m n, a = int m ∧ b = int n := by
  cases a with
  | int m =>
    cases b with
    | int n => exact Or.inr ⟨m, n, rfl, rfl⟩
    | float y => exact Or.inl (order_float_right ha hb)
    | _ => cases hb
  | float x => exact Or.inl (order_float ha hb)
  | _ => cases ha

theorem compares_le_iff : compares .le a b = true ↔ ∃ o, order a b = some o ∧ o ≠ .gt := by
  rw [compares]
  rcases order a b with _ | (_ | _ | _) <;> simp

theorem compares_le_int_iff {m n : Int64} :
    compares .le (int m) (int n) = true ↔ m.toInt ≤ n.toInt := by
  rw [compares_le_iff]
  constructor
  · rintro ⟨o, ho, hne⟩
    cases ho
    exact compare_le_iff_le.mp hne
  · exact fun h => ⟨_, rfl, compare_le_iff_le.mpr h⟩

theorem rank?_le (h : compares .le a b = true) (ha : a.rank? = some r) (hb : b.rank? = some s) :
    r ≤ s := by
  rcases order_of_rank? ha hb with horder | ⟨m, n, rfl, rfl⟩
  · obtain ⟨o, ho, hne⟩ := compares_le_iff.mp h
    cases horder.symm.trans ho
    exact compare_le_iff_le.mp hne
  · cases ha
    cases hb
    exact Binary64.intUnits_mono (compares_le_int_iff.mp h)

/-- Numbers are equal if they are so in both directions. -/
theorem equal_iff_le (h : Comparable a b) :
    a.equal b = true ↔ compares .le a b = true ∧ compares .le b a = true := by
  obtain ⟨o, ho⟩ := exists_order_iff.mpr h
  have hswap := order_swap a b
  rw [ho, Option.map_some] at hswap
  rw [equal_of_order ho, compares_of_order ho, compares_of_order hswap]
  cases o <;> decide

theorem equal_float_iff {m : Int64} {x : Binary64} :
    (int m).equal (float x) = true ↔ x.rank = some (Binary64.intUnits m.toInt) := by
  have hlow := Int64.le_toInt m
  have hhigh := Int64.toInt_lt m
  exact Binary64.numEq_ofInt_iff (by omega)

/-- Of two integers with a float between them, the first one is the larger only if the float
blurs them. -/
theorem blurs_of_lt {m n : Int64} {x : Binary64} (hm : compares .le (int m) (float x) = true)
    (hn : compares .le (float x) (int n) = true) (hlt : n.toInt < m.toInt) : x.Blurs m n := by
  obtain ⟨o, ho, -⟩ := compares_le_iff.mp hm
  obtain ⟨-, s, hs⟩ := Binary64.exists_rank_of_order ho
  have hmx := rank?_le hm rfl hs
  have hxn := rank?_le hn hs rfl
  have hround := Binary64.intUnits_mono (Int.le_of_lt hlt)
  have hne : m ≠ n := by
    rintro rfl
    exact Int.lt_irrefl _ hlt
  refine ⟨hne, equal_float_iff.mpr ?_, equal_float_iff.mpr ?_⟩
  · rw [hs, Int.le_antisymm hmx (Int.le_trans hxn hround)]
  · rw [hs, Int.le_antisymm hxn (Int.le_trans hround hmx)]

theorem le_trans_iff (ha : a.IsNumber) (hb : b.IsNumber) (hc : c.IsNumber)
    (hab : compares .le a b = true) (hbc : compares .le b c = true) :
    compares .le a c = true ↔ ¬ ∃ m n x, a = int m ∧ b = float x ∧ c = int n ∧
      n.toInt < m.toInt ∧ x.Blurs m n := by
  obtain ⟨r, hr⟩ := exists_rank?_iff.mpr ha
  obtain ⟨s, hs⟩ := exists_rank?_iff.mpr hb
  obtain ⟨t, ht⟩ := exists_rank?_iff.mpr hc
  constructor
  · rintro h ⟨m, n, x, rfl, -, rfl, hlt, -⟩
    exact Int.not_le.mpr hlt (compares_le_int_iff.mp h)
  · intro h
    -- the ranks decide, unless the outer two are integers, which do not look at them
    rcases order_of_rank? hr ht with horder | ⟨m, n, rfl, rfl⟩
    · have hle := Int.le_trans (rank?_le hab hr hs) (rank?_le hbc hs ht)
      exact compares_le_iff.mpr ⟨_, horder, compare_le_iff_le.mpr hle⟩
    · rw [compares_le_int_iff]
      cases hb with
      | int k => exact Int.le_trans (compares_le_int_iff.mp hab) (compares_le_int_iff.mp hbc)
      | @float x _ =>
        refine Int.not_lt.mp fun hlt => h ⟨m, n, x, rfl, rfl, rfl, hlt, ?_⟩
        exact blurs_of_lt hab hbc hlt

/-- Integers of less than 53 bits are not blurred. -/
theorem natAbs_of_blurs {x : Binary64} {m n : Int64} (h : x.Blurs m n) :
    2 ^ 53 ≤ m.toInt.natAbs ∧ 2 ^ 53 ≤ n.toInt.natAbs := by
  obtain ⟨hne, hm, hn⟩ := h
  have hunits := Option.some.inj ((equal_float_iff.mp hm).symm.trans (equal_float_iff.mp hn))
  have hne' : m.toInt ≠ n.toInt := fun h => hne (Int64.toInt_inj.mp h)
  exact ⟨Binary64.le_natAbs_of_intUnits_eq hunits hne',
    Binary64.le_natAbs_of_intUnits_eq hunits.symm hne'.symm⟩

theorem mark?_of_comparable (h : Comparable a b) : a.mark? = none ∧ b.mark? = none := by
  rcases h with ⟨⟨s, rfl⟩, t, rfl⟩ | ⟨ha, hb⟩
  · exact ⟨rfl, rfl⟩
  · cases ha <;> cases hb <;> exact ⟨rfl, rfl⟩

theorem equal_trans_iff_of_isNumber (hu : u.IsNumber) (hv : v.IsNumber) (hw : w.IsNumber)
    (huv : u.equal v = true) (hvw : v.equal w = true) :
    u.equal w = true ↔ ¬ ∃ m n x, u = int m ∧ v = float x ∧ w = int n ∧ x.Blurs m n := by
  rw [equal_iff_le (Or.inr ⟨hu, hv⟩)] at huv
  rw [equal_iff_le (Or.inr ⟨hv, hw⟩)] at hvw
  rw [equal_iff_le (Or.inr ⟨hu, hw⟩), le_trans_iff hu hv hw huv.1 hvw.1,
    le_trans_iff hw hv hu hvw.2 huv.2]
  constructor
  · rintro ⟨hle, hge⟩ ⟨m, n, x, hm, hx, hn, hblurs⟩
    have hne : m.toInt ≠ n.toInt := fun h => hblurs.1 (Int64.toInt_inj.mp h)
    rcases Int.lt_or_gt_of_ne hne with hlt | hgt
    · exact hge ⟨n, m, x, hn, hx, hm, hlt, hblurs.symm⟩
    · exact hle ⟨m, n, x, hm, hx, hn, hgt, hblurs⟩
  · intro h
    constructor
    · rintro ⟨m, n, x, hm, hx, hn, -, hblurs⟩
      exact h ⟨m, n, x, hm, hx, hn, hblurs⟩
    · rintro ⟨m, n, x, hm, hx, hn, -, hblurs⟩
      exact h ⟨n, m, x, hn, hx, hm, hblurs.symm⟩

/-- At one place, equality is transitive unless a float blurs two integers. -/
theorem equal_trans_iff_of_top_eq (hu : u.top = u) (hv : v.top = v) (hw : w.top = w)
    (huv : u.equal v = true) (hvw : v.equal w = true) :
    u.equal w = true ↔ ¬ ∃ m n x, u = int m ∧ v = float x ∧ w = int n ∧ x.Blurs m n := by
  -- the value between has an order or a mark, never both, so the outer ones are of its sort
  rcases (equal_iff_of_top_eq hu hv).mp huv with ho | ⟨k, hku, hkv⟩
  · have hcomp := exists_order_iff.mp ⟨_, ho⟩
    rcases (equal_iff_of_top_eq hv hw).mp hvw with ho' | ⟨k, hkv, -⟩
    · have hcomp' := exists_order_iff.mp ⟨_, ho'⟩
      rcases hcomp with ⟨⟨s, rfl⟩, t, rfl⟩ | ⟨hun, hvn⟩
      · rcases hcomp' with ⟨-, s', rfl⟩ | ⟨hvn, -⟩
        · have hst : compare s t = .eq := Option.some.inj ho
          rw [compare_eq_iff_eq.mp hst]
          refine iff_of_true hvw ?_
          rintro ⟨m, n, x, h, -⟩
          cases h
        · cases hvn
      · rcases hcomp' with ⟨⟨t, rfl⟩, -⟩ | ⟨-, hwn⟩
        · cases hvn
        · exact equal_trans_iff_of_isNumber hun hvn hwn huv hvw
    · rw [(mark?_of_comparable hcomp).2] at hkv
      cases hkv
  · rcases (equal_iff_of_top_eq hv hw).mp hvw with ho' | ⟨k', hkv', hkw⟩
    · rw [(mark?_of_comparable (exists_order_iff.mp ⟨_, ho'⟩)).1] at hkv
      cases hkv
    · cases hkv.symm.trans hkv'
      refine iff_of_true ((equal_iff_of_top_eq hu hw).mpr (Or.inr ⟨k, hku, hkw⟩)) ?_
      rintro ⟨m, n, x, rfl, -⟩
      cases hku

/-- Comparison is transitive, but for floats that blur two integers of 54 bits or more. Equality
fails to be so just where two equal values hold different integers that the value between them
blurs, and the order of numbers just where such integers stand the wrong way round. -/
theorem compares_transitive_but_for_blurs :
    (∀ a b c, a.Distinct → b.Distinct → c.Distinct →
      compares .eq a b = true → compares .eq b c = true →
      (compares .eq a c = true ↔ ¬ ∃ place m n x, a.shape place = some (int m) ∧
        b.shape place = some (float x) ∧ c.shape place = some (int n) ∧ x.Blurs m n)) ∧
    (∀ a b c, a.IsNumber → b.IsNumber → c.IsNumber →
      compares .le a b = true → compares .le b c = true →
      (compares .le a c = true ↔ ¬ ∃ m n x, a = int m ∧ b = float x ∧ c = int n ∧
        n.toInt < m.toInt ∧ x.Blurs m n)) ∧
    ∀ x m n, Binary64.Blurs x m n → 2 ^ 53 ≤ m.toInt.natAbs ∧ 2 ^ 53 ≤ n.toInt.natAbs := by
  refine ⟨fun a b c ha hb hc hab hbc => ?_, fun a b c => le_trans_iff, fun x m n => natAbs_of_blurs⟩
  have hagree := (equal_iff_shape ha hb).mp hab
  have hagree' := (equal_iff_shape hb hc).mp hbc
  rw [compares, equal_iff_shape ha hc]
  constructor
  · rintro h ⟨place, m, n, x, hm, hx, hn, hblurs⟩
    have huv := hagree place
    have hvw := hagree' place
    have huw := h place
    rw [hm, hx, agree_some_iff] at huv
    rw [hx, hn, agree_some_iff] at hvw
    rw [hm, hn, agree_some_iff] at huw
    exact (equal_trans_iff_of_top_eq rfl rfl rfl huv hvw).mp huw ⟨m, n, x, rfl, rfl, rfl, hblurs⟩
  · intro h place
    have huv := hagree place
    have hvw := hagree' place
    cases hv : b.shape place with
    | none =>
      rw [hv, agree_none_right_iff] at huv
      rw [hv, agree_none_left_iff] at hvw
      rw [huv, hvw]
      exact agree_none
    | some v =>
      rw [hv, agree_some_right_iff] at huv
      rw [hv, agree_some_left_iff] at hvw
      obtain ⟨u, hu, huv⟩ := huv
      obtain ⟨w, hw, hvw⟩ := hvw
      rw [hu, hw, agree_some_iff, equal_trans_iff_of_top_eq (top_eq_of_shape hu)
        (top_eq_of_shape hv) (top_eq_of_shape hw) huv hvw]
      rintro ⟨m, n, x, rfl, rfl, rfl, hblurs⟩
      exact h ⟨place, m, n, x, hu, hv, hw, hblurs⟩

theorem compares_transitive_but_for_blurs_mixed :
    compares .le (int 1) (float (.ofInt 2)) = true ∧
    compares .le (float (.ofInt 2)) (int 3) = true ∧
    compares .le (int 1) (int 3) = true := by
  have hle : compares .le (int 1) (float (.ofInt 2)) = true := by decide +kernel
  have hle' : compares .le (float (.ofInt 2)) (int 3) = true := by decide +kernel
  refine ⟨hle, hle', ?_⟩
  rw [compares_transitive_but_for_blurs.2.1 _ _ _ (.int 1) (.float (by decide +kernel)) (.int 3)
    hle hle']
  rintro ⟨m, n, x, hm, -, hn, hlt, -⟩
  cases hm
  cases hn
  exact absurd hlt (by decide)

/-- The least positive integer that is rounded equals the float, and so does the one before it. -/
theorem compares_not_transitive :
    (int 9007199254740993).IsNumber ∧ (float (.ofInt 9007199254740992)).IsNumber ∧
    (int 9007199254740992).IsNumber ∧
    compares .eq (int 9007199254740993) (float (.ofInt 9007199254740992)) = true ∧
    compares .eq (float (.ofInt 9007199254740992)) (int 9007199254740992) = true ∧
    compares .eq (int 9007199254740993) (int 9007199254740992) = false ∧
    compares .le (int 9007199254740993) (float (.ofInt 9007199254740992)) = true ∧
    compares .le (float (.ofInt 9007199254740992)) (int 9007199254740992) = true ∧
    compares .le (int 9007199254740993) (int 9007199254740992) = false := by
  refine ⟨.int _, .float (by decide +kernel), .int _, ?_⟩
  decide +kernel

end Value

end Stencil
