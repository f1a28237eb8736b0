import Stencil.Decimal.Binary64

/-! # Decimal digits of floating point numbers

Two ways from a magnitude to digits: the shortest coefficient that reads back as the
same number, and the exact value rounded to a given place. Both work on integers alone.
-/
namespace Stencil

/-- The number `coefficient * 10 ^ exponent`. -/
structure Decimal where
  coefficient : Nat
  exponent : Int
deriving DecidableEq, Repr

namespace Decimal

def digits (d : Decimal) : List Char := Nat.toDigits 10 d.coefficient

/-- Where the decimal point stands, counted from the first digit. -/
def point (d : Decimal) : Int := d.digits.length + d.exponent

private def trim : Nat → Nat → Int → Decimal
  | 0, c, e => ⟨c, e⟩
  | fuel + 1, c, e => if c % 10 = 0 then trim fuel (c / 10) (e + 1) else ⟨c, e⟩

def normalize (d : Decimal) : Decimal :=
  if d.coefficient = 0 then ⟨0, 0⟩ else trim d.digits.length d.coefficient d.exponent

end Decimal

namespace Magnitude

/-- A power of ten that makes every grid of interest an integer grid. -/
private def gridScale : Nat := 10 ^ 400

/-- The least decimal exponent `e` with `value < 10 ^ (e + 1)`, for a value above zero. -/
def decimalExponent (m : Magnitude) : Int :=
  ((Nat.toDigits 10 (m.units * gridScale / unitsPerOne)).length : Int) - 401

/-- The numbers that round to `m` lie between these two, both in quarters of a unit.
Below a power of two the spacing halves. -/
private def interval (m : Magnitude) : Nat × Nat :=
  let half := 2 * 2 ^ m.shift
  let below := if m.significand = 2 ^ 52 ∧ m.shift ≠ 0 then 2 ^ m.shift else half
  (4 * m.units - below, 4 * m.units + half)

/-- Whether `coefficient * 10 ^ exponent` rounds to `m`: the ends of the interval do if the
significand is even. -/
def readsBack (m : Magnitude) (coefficient : Nat) (exponent : Int) : Bool :=
  let candidate := coefficient * 10 ^ (exponent + 400).toNat * (4 * unitsPerOne)
  let low := m.interval.1 * gridScale
  let high := m.interval.2 * gridScale
  if m.significand % 2 = 0 then low ≤ candidate && candidate ≤ high
  else low < candidate && candidate < high

/-- Which of two equally near coefficients is taken. -/
inductive Tie where
  | up
  | even
deriving DecidableEq

/-- The coefficient on the grid `10 ^ exponent` that reads back and is nearest to the value. -/
def onGrid? (m : Magnitude) (tie : Tie) (exponent : Int) : Option Decimal :=
  let step := 10 ^ (exponent + 400).toNat * unitsPerOne
  let value := m.units * gridScale
  let floor := value / step
  match m.readsBack floor exponent, m.readsBack (floor + 1) exponent with
  | false, false => none
  | true, false => some ⟨floor, exponent⟩
  | false, true => some ⟨floor + 1, exponent⟩
  | true, true =>
    let rest := 2 * (value % step)
    let low := rest < step || (rest == step && tie == .even && floor % 2 == 0)
    some ⟨if low then floor else floor + 1, exponent⟩

private def search (m : Magnitude) (tie : Tie) : Nat → Int → Decimal
  | 0, e => ⟨m.units * gridScale / (10 ^ (e + 400).toNat * unitsPerOne), e⟩
  | fuel + 1, e => (m.onGrid? tie e).getD (search m tie fuel (e - 1))

/-- The shortest decimal that reads back as `m`, and of these the nearest one. -/
def shortest (m : Magnitude) (tie : Tie) : Decimal :=
  if m.units = 0 then ⟨0, 0⟩ else (search m tie 17 m.decimalExponent).normalize

/-- The coefficient of the value rounded to `places` decimal places, ties to even. -/
def roundPlaces (m : Magnitude) (places : Int) : Nat :=
  if 0 ≤ places then roundDiv (m.units * 10 ^ places.toNat) unitsPerOne
  else roundDiv m.units (unitsPerOne * 10 ^ (-places).toNat)

def roundSignificant (m : Magnitude) (places : Nat) : Decimal :=
  if m.units = 0 then ⟨0, 0⟩
  else
    let e := m.decimalExponent
    let c := m.roundPlaces (places - e)
    if c = 10 ^ (places + 1) then ⟨10 ^ places, e + 1 - places⟩ else ⟨c, e - places⟩

end Magnitude

end Stencil
