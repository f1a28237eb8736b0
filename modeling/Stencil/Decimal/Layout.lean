import Stencil.Decimal.Digits

/-! # Written forms of floating point numbers

A layout says which numbers are written with all their digits and which with an
exponent. Fixed and exponent forms with a given count of places serve directives.
-/
namespace Stencil

structure FloatLayout where
  /-- Numbers below `10 ^ least` (zero apart) are written with an exponent. -/
  least : Option Int
  /-- Numbers from `10 ^ bound` on are written with an exponent. -/
  bound : Option Int
  /-- Whether an integral number written with all its digits ends in `.0`. -/
  pointZero : Bool
  /-- Whether an exponent that is not negative has a plus sign. -/
  plusSign : Bool
  tie : Magnitude.Tie

namespace FloatLayout

def plain : FloatLayout := ⟨none, none, false, false, .up⟩

/-- Exponents below `1e-4` and from `1e16` on, and always a mark that tells it from an integer. -/
def debug : FloatLayout := ⟨some (-4), some 16, true, false, .up⟩

/-- Exponents below `1e-5` and from `1e+16` on, and always a mark that tells it from an integer. -/
def json : FloatLayout := ⟨some (-5), some 16, true, true, .even⟩

def exponentText (l : FloatLayout) (exponent : Int) : List Char :=
  (if l.plusSign && decide (0 ≤ exponent) then ['+'] else []) ++ (toString exponent).toList

/-- Whether a number whose first digit stands for `10 ^ exponent` is written with an exponent. -/
def usesExponent (l : FloatLayout) (exponent : Int) : Bool :=
  (match l.least with | some n => decide (exponent < n) | none => false) ||
    (match l.bound with | some n => decide (n ≤ exponent) | none => false)

end FloatLayout

namespace Decimal

private def zeros (n : Int) : List Char := List.replicate n.toNat '0'

def positional (d : Decimal) (pointZero : Bool) : List Char :=
  let digits := d.digits
  let point := d.point
  if point ≤ 0 then '0' :: '.' :: zeros (-point) ++ digits
  else if point < digits.length then
    digits.take point.toNat ++ '.' :: digits.drop point.toNat
  else digits ++ zeros (point - digits.length) ++ (if pointZero then ['.', '0'] else [])

/-- One digit before the point, the others after it, and the text of the exponent. -/
def scientific (d : Decimal) (exponent : Int → List Char) : List Char :=
  let mantissa := match d.digits with
    | first :: rest@(_ :: _) => first :: '.' :: rest
    | digits => digits
  mantissa ++ 'e' :: exponent (d.point - 1)

def layout (l : FloatLayout) (d : Decimal) : List Char :=
  if d.coefficient = 0 then (if l.pointZero then ['0', '.', '0'] else ['0'])
  else if l.usesExponent (d.point - 1) then d.scientific l.exponentText
  else d.positional l.pointZero

end Decimal

namespace Magnitude

/-- Exactly `places` digits after the point, and no point if there are none. -/
def fixed (m : Magnitude) (places : Nat) : List Char :=
  let digits := Nat.toDigits 10 (m.roundPlaces places)
  let padded := List.replicate (places + 1 - digits.length) '0' ++ digits
  let whole := padded.take (padded.length - places)
  if places = 0 then whole else whole ++ '.' :: padded.drop (padded.length - places)

/-- Exactly `places` digits after the first one, then a sign and at least two digits of exponent. -/
def exponential (m : Magnitude) (places : Nat) : List Char :=
  let d := m.roundSignificant places
  let digits := d.digits ++ List.replicate (places + 1 - d.digits.length) '0'
  let mantissa := if places = 0 then digits.take 1 else digits.take 1 ++ '.' :: digits.drop 1
  let exponent := if m.units = 0 then 0 else d.point - 1
  let power := Nat.toDigits 10 exponent.natAbs
  mantissa ++ 'e' :: (if exponent < 0 then '-' else '+') ::
    (List.replicate (2 - power.length) '0' ++ power)

end Magnitude

namespace Binary64

def write (l : FloatLayout) (nanText infinityText positiveSign : String) : Binary64 → String
  | nan => nanText
  | infinite negative => (if negative then "-" else positiveSign) ++ infinityText
  | finite negative m =>
    (if negative then "-" else "") ++ String.ofList ((m.shortest l.tie).layout l)

/-- The text of a number inside other text: `1.5`, `10000`, `-0`, `NaN`, `+Inf`. -/
def text (x : Binary64) : String := x.write .plain "NaN" "Inf" "+"

/-- The text of a number that shows its kind: `1.5`, `10000.0`, `1e16`, `NaN`, `inf`. -/
def debugText (x : Binary64) : String := x.write .debug "NaN" "inf" ""

end Binary64

end Stencil
