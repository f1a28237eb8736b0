import Mathlib.Data.String.Basic
import Mathlib.Order.Compare
import Stencil.Proofs.Decimal.Rounding
import Stencil.Proofs.Value.Shape

/-! # The order of texts and numbers

What has an order, and how it is read off ranks: a number next to a float stands where its float
stands, while integers are compared as they are. Equality of values that have no parts is either
that of the order, or that of the marks which all other values bear.
-/
namespace Stencil

namespace Binary64

theorem order_of_rank {x y : Binary64} {r s : Int} (hx : x.rank = some r) (hy : y.rank = some s) :
    x.order y = some (compare r s) := by
  rw [order, hx, hy]

theorem order_swap (x y : Binary64) : y.order x = (x.order y).map Ordering.swap := by
  rw [order, order]
  cases x.rank with
  | none => cases y.rank <;> rfl
  | some r =>
    cases y.rank with
    | none => rfl
    | some s => exact congrArg some Std.OrientedOrd.eq_swap

theorem exists_rank_iff {x : Binary64} : (∃ r, x.rank = some r) ↔ x.isNaN = false := by
  cases x with
  | nan => exact iff_of_false nofun nofun
  | infinite negative => exact iff_of_true ⟨_, rfl⟩ rfl
  | finite negative m => exact iff_of_true ⟨_, rfl⟩ rfl

theorem exists_rank_of_order {x y : Binary64} {o : Ordering} (h : x.order y = some o) :
    (∃ r, x.rank = some r) ∧ ∃ s, y.rank = some s := by
  rw [order] at h
  split at h
  · rename_i r s hx hy
    exact ⟨⟨r, hx⟩, s, hy⟩
  · cases h

theorem rank_ofInt64 (n : Int64) : (ofInt n.toInt).rank = some (intUnits n.toInt) := by
  have hlow := Int64.le_toInt n
  have hhigh := Int64.toInt_lt n
  exact rank_ofInt (by omega)

end Binary64

namespace Value

/-- The value is a number, and not the one that is none. -/
inductive IsNumber : Value → Prop
  | int (n : Int64) : IsNumber (int n)
  | float {x : Binary64} : x.isNaN = false → IsNumber (float x)

/-- Two texts, or two numbers. -/
def Comparable (a b : Value) : Prop :=
  ((∃ s, a = text s) ∧ ∃ t, b = text t) ∨ (a.IsNumber ∧ b.IsNumber)

/-- Where a number stands among the floats. -/
def rank? : Value → Option Int
  | int n => some (Binary64.intUnits n.toInt)
  | float x => x.rank
  | _ => none

variable {a b c v w : Value} {r s : Int}

theorem exists_rank?_iff : (∃ r, v.rank? = some r) ↔ v.IsNumber := by
  cases v with
  | int n => exact iff_of_true ⟨_, rfl⟩ (.int n)
  | float x => exact Binary64.exists_rank_iff.trans ⟨.float, fun h => by cases h; assumption⟩
  | _ => exact iff_of_false nofun nofun

theorem order_swap (a b : Value) : b.order a = (a.order b).map Ordering.swap := by
  cases a with
  | int m =>
    cases b with
    | int n => exact congrArg some Std.OrientedOrd.eq_swap
    | float y => exact Binary64.order_swap _ _
    | _ => rfl
  | float x =>
    cases b with
    | int n => exact Binary64.order_swap _ _
    | float y => exact Binary64.order_swap _ _
    | _ => rfl
  | text s =>
    cases b with
    | text t => exact congrArg some (Std.OrientedOrd.eq_swap (a := t) (b := s))
    | _ => rfl
  | _ => cases b <;> rfl

/-- Next to a float, a number stands at its rank. -/
theorem order_float {x : Binary64} (hx : x.rank = some r) (hw : w.rank? = some s) :
    order (float x) w = some (compare r s) := by
  cases w with
  | int n =>
    cases hw
    exact Binary64.order_of_rank hx (Binary64.rank_ofInt64 n)
  | float y => exact Binary64.order_of_rank hx hw
  | _ => cases hw

theorem order_float_right {x : Binary64} (hv : v.rank? = some r) (hx : x.rank = some s) :
    order v (float x) = some (compare r s) := by
  rw [order_swap, order_float hx hv]
  exact congrArg some Std.OrientedOrd.eq_swap.symm

/-- Only texts and numbers have an order, and any two of the same sort do. -/
theorem exists_order_iff : (∃ o, order a b = some o) ↔ Comparable a b := by
  constructor
  · rintro ⟨o, h⟩
    have hfloat {x : Binary64} (hx : ∃ r, x.rank = some r) : (float x).IsNumber :=
      .float (Binary64.exists_rank_iff.mp hx)
    cases a with
    | int m =>
      cases b with
      | int n => exact Or.inr ⟨.int m, .int n⟩
      | float y => exact Or.inr ⟨.int m, hfloat (Binary64.exists_rank_of_order h).2⟩
      | _ => cases h
    | float x =>
      cases b with
      | int n => exact Or.inr ⟨hfloat (Binary64.exists_rank_of_order h).1, .int n⟩
      | float y =>
        obtain ⟨hx, hy⟩ := Binary64.exists_rank_of_order h
        exact Or.inr ⟨hfloat hx, hfloat hy⟩
      | _ => cases h
    | text s =>
      cases b with
      | text t => exact Or.inl ⟨⟨s, rfl⟩, t, rfl⟩
      | _ => cases h
    | _ => cases b <;> cases h
  · rintro (⟨⟨s, rfl⟩, t, rfl⟩ | ⟨ha, hb⟩)
    · exact ⟨_, rfl⟩
    · obtain ⟨r, hr⟩ := exists_rank?_iff.mpr ha
      obtain ⟨s, hs⟩ := exists_rank?_iff.mpr hb
      cases ha with
      | int m =>
        cases hb with
        | int n => exact ⟨_, rfl⟩
        | float _ => exact ⟨_, order_float_right hr hs⟩
      | float _ => exact ⟨_, order_float hr hs⟩

theorem order_self (h : Comparable v v) : order v v = some .eq := by
  obtain ⟨o, ho⟩ := exists_order_iff.mpr h
  have hswap := order_swap v v
  rw [ho, Option.map_some, Option.some.injEq] at hswap
  cases o with
  | eq => exact ho
  | _ => cases hswap

/-- Texts and numbers are equal if they are so in their order. -/
theorem equal_of_order {o : Ordering} (h : order a b = some o) : a.equal b = (o == .eq) := by
  fun_cases equal a b with
  | case7 => rw [h]; rfl
  | _ => cases h

/-- What tells values apart that have no order, if it is not their parts. -/
inductive Mark where
  | absent
  | bool (b : Bool)
  | seq
  | record
  | object (identity : Nat)
  | callable (identity : Nat)

def mark? : Value → Option Mark
  | absent => some .absent
  | bool b => some (.bool b)
  | seq _ => some .seq
  | record _ => some .record
  | object identity _ _ _ _ => some (.object identity)
  | callable identity _ => some (.callable identity)
  | int _ | float _ | text _ => none

/-- Values without parts are equal by their order or by their marks. -/
theorem equal_iff_of_top_eq (ha : a.top = a) (hb : b.top = b) : a.equal b = true ↔
    order a b = some .eq ∨ ∃ m, a.mark? = some m ∧ b.mark? = some m := by
  fun_cases equal a b with
  | case1 => simp [mark?]
  | case2 x y => simpa [order, mark?] using eq_comm
  | case3 items items' =>
    cases ha
    cases hb
    simp [equalItems, mark?]
  | case4 entries entries' =>
    cases ha
    cases hb
    simp [entriesWithin, mark?]
  | case5 | case6 => simpa [order, mark?] using eq_comm
  | case7 a b habsent hbool hseq hrecord hobject hcallable =>
    rw [beq_iff_eq]
    refine (or_iff_left ?_).symm
    rintro ⟨m, hm, hm'⟩
    cases a with
    | absent =>
      cases hm
      cases b with
      | absent => exact habsent rfl rfl
      | _ => cases hm'
    | bool x =>
      cases hm
      cases b with
      | bool y => exact hbool x y rfl rfl
      | _ => cases hm'
    | seq items =>
      cases hm
      cases b with
      | seq items' => exact hseq items items' rfl rfl
      | _ => cases hm'
    | record entries =>
      cases hm
      cases b with
      | record entries' => exact hrecord entries entries' rfl rfl
      | _ => cases hm'
    | object i =>
      cases hm
      cases b with
      | object j => exact hobject _ _ _ _ _ _ _ _ _ _ rfl rfl
      | _ => cases hm'
    | callable i =>
      cases hm
      cases b with
      | callable j => exact hcallable _ _ _ _ rfl rfl
      | _ => cases hm'
    | int | float | text => cases hm

end Value

end Stencil
