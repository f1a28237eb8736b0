import Stencil.Decimal.Binary64

/-! # Reading numbers

The written forms accepted for integers (a sign and digits) and for floating point
numbers (digits with a point and an exponent, or the words for the other numbers).
-/
namespace Stencil

def isDigit (c : Char) : Bool := '0' ≤ c && c ≤ '9'

def digitValue (c : Char) : Nat := c.toNat - '0'.toNat

/-- The number that a run of digits denotes, after those already read. -/
def digitsValue (read : Nat) (digits : List Char) : Nat :=
  digits.foldl (fun n c => 10 * n + digitValue c) read

def splitSign : List Char → Bool × List Char
  | '-' :: rest => (true, rest)
  | '+' :: rest => (false, rest)
  | rest => (false, rest)

/-- At least one digit and nothing else. -/
def readNat? (text : List Char) : Option Nat :=
  if text ≠ [] ∧ text.all isDigit then some (digitsValue 0 text) else none

def readInt? (text : List Char) : Option Int :=
  let (negative, digits) := splitSign text
  (readNat? digits).map fun n => if negative then -(n : Int) else n

def int64? (n : Int) : Option Int64 :=
  if -(2 ^ 63) ≤ n ∧ n < 2 ^ 63 then some (Int64.ofInt n) else none

def readInt64? (text : List Char) : Option Int64 := (readInt? text).bind int64?

/-- A number in decimal notation: its sign, its digits without the point, and the power of ten. -/
structure Numeral where
  negative : Bool
  coefficient : Nat
  exponent : Int
deriving DecidableEq, Repr

namespace Numeral

/-- What may follow the digits: nothing, or `e`, an optional sign and digits. -/
private def exponent? : List Char → Option Int
  | [] => some 0
  | c :: rest => if c = 'e' ∨ c = 'E' then readInt? rest else none

/-- Digits with at most one point, at least one digit in all, and an optional exponent. -/
def read? (text : List Char) : Option Numeral :=
  let (negative, body) := splitSign text
  let whole := body.takeWhile isDigit
  let (fraction, rest) := match body.dropWhile isDigit with
    | '.' :: rest => (rest.takeWhile isDigit, rest.dropWhile isDigit)
    | rest => ([], rest)
  if whole = [] ∧ fraction = [] then none
  else (exponent? rest).map fun e =>
    ⟨negative, digitsValue (digitsValue 0 whole) fraction, e - fraction.length⟩

end Numeral

/-- The words for infinity and not-a-number, in any case, after an optional sign. -/
private def readNonFinite? (text : List Char) : Option Binary64 :=
  let (negative, body) := splitSign text
  let word := String.ofList (body.map Char.toLower)
  if word = "nan" then some .nan
  else if word = "inf" ∨ word = "infinity" then some (.infinite negative)
  else none

def readFloat? (text : List Char) : Option Binary64 :=
  match Numeral.read? text with
  | some n => some (.ofDecimal n.negative n.coefficient n.exponent)
  | none => readNonFinite? text

def readFloatSingle? (text : List Char) : Option Binary64 :=
  match Numeral.read? text with
  | some n => some (.ofDecimalSingle n.negative n.coefficient n.exponent)
  | none => readNonFinite? text

end Stencil
