import Stencil.Decimal.Layout
import Stencil.Format.Directive
import Stencil.Text.Utf8
import Stencil.Value.Display

/-! # Formatting values

Each directive of a format consumes one value. Texts are cut to the precision, integers filled
up to it, and floats rounded to it; the width fills up with blanks or zeros. -/
namespace Stencil

inductive FormatFault where
  | incomplete
  | missingValue (verb : Char)
  | tooManyValues
  | notInteger (verb : Char) (kind : Value.Kind)
  | notNumber (verb : Char) (kind : Value.Kind)
  | unknownVerb (verb : Char)
deriving DecidableEq, Repr

namespace FormatFault

private def shown (verb : Char) : String := "%" ++ String.singleton verb

def error : FormatFault → Error
  | incomplete => .new .invalidOperation "incomplete format directive"
  | missingValue verb => .new .missingArgument ("missing argument for " ++ shown verb)
  | tooManyValues => .new .invalidArguments "too many arguments for format string"
  | notInteger verb kind =>
    .new .invalidOperation (shown verb ++ " expects an integer, got " ++ kind.name)
  | notNumber verb kind =>
    .new .invalidOperation (shown verb ++ " expects a number, got " ++ kind.name)
  | unknownVerb verb => .new .invalidOperation ("unsupported format verb " ++ shown verb)

end FormatFault

namespace Layout

def sign (l : Layout) (negative : Bool) : List Char :=
  if negative then ['-']
  else if l.plusSign then ['+']
  else if l.spaceSign then [' ']
  else []

/-- Fills up to the width: behind, between sign and body with zeros, or in front. -/
def pad (l : Layout) (sign body : List Char) (zeroAllowed : Bool) : List Char :=
  let fill := l.width.getD 0 - (sign.length + body.length)
  if l.leftAlign then sign ++ body ++ List.replicate fill ' '
  else if l.zeroPad && zeroAllowed then sign ++ List.replicate fill '0' ++ body
  else List.replicate fill ' ' ++ sign ++ body

end Layout

namespace Value

/-- The integer that an integer directive shows: an integral number in range, or a truth value. -/
def formatInt? : Value → Option Int64
  | int n => some n
  | float x =>
    if x.isIntegral && x.isWithin (2 ^ 63) then some (Int64.ofInt x.truncate) else none
  | bool b => some (if b then 1 else 0)
  | _ => none

def formatFloat? : Value → Option Binary64
  | int n => some (.ofInt n.toInt)
  | float x => some x
  | _ => none

end Value

namespace Directive

def digit (capital : Bool) (n : Nat) : Char :=
  if capital then (Nat.digitChar n).toUpper else Nat.digitChar n

def base? (verb : Char) : Option Nat :=
  if verb = 'd' then some 10
  else if verb = 'o' then some 8
  else if verb = 'b' then some 2
  else if verb = 'x' ∨ verb = 'X' then some 16
  else none

def hexText (capital : Bool) (s : String) : List Char :=
  (Text.encode s.toList).flatMap (Text.hexByte (digit capital))

/-- An integer: the precision is the least count of digits, and then there are no other zeros. -/
def showInt (l : Layout) (base : Nat) (capital : Bool) (n : Int64) : List Char :=
  let digits := (Nat.toDigits base n.toInt.natAbs).map fun c => if capital then c.toUpper else c
  let body := List.replicate (l.precision.getD 0 - digits.length) '0' ++ digits
  l.pad (l.sign (n.toInt < 0)) body l.precision.isNone

/-- A float with a fixed count of places, or of digits after the first one. -/
def showFloat (l : Layout) (exponent capital : Bool) (x : Binary64) : List Char :=
  let places := l.precision.getD 6
  let body := match x with
    | .nan => ['N', 'a', 'N']
    | .infinite _ => ['I', 'n', 'f']
    | .finite _ m => if exponent then m.exponential places else m.fixed places
  let body := if capital then body.map Char.toUpper else body
  l.pad (l.sign x.isNegative) body x.isFinite

def apply (l : Layout) (verb : Char) (v : Value) : Except FormatFault (List Char) :=
  if verb = 's' ∨ verb = 'v' then
    let body := v.display.toList
    .ok (l.pad [] (match l.precision with | some n => body.take n | none => body) true)
  else if verb = 'q' then .ok (l.pad [] (Text.quote v.display).toList false)
  else match base? verb with
    | some base => match v, base with
      | .text s, 16 => .ok (l.pad [] (hexText (verb = 'X') s) true)
      | _, _ => match v.formatInt? with
        | some n => .ok (showInt l base (verb = 'X') n)
        | none => .error (.notInteger verb v.kind)
    | none =>
      if verb = 'f' ∨ verb = 'F' ∨ verb = 'e' ∨ verb = 'E' then
        match v.formatFloat? with
        | some x => .ok (showFloat l (verb = 'e' ∨ verb = 'E') (verb = 'E') x)
        | none => .error (.notNumber verb v.kind)
      else .error (.unknownVerb verb)

end Directive

/-- The text of the pieces of a format, the values being consumed from left to right. -/
def formatPieces : List FormatPiece → List Value → Except FormatFault (List Char)
  | [], [] => .ok []
  | [], _ :: _ => .error .tooManyValues
  | .literal c :: rest, values => do return c :: (← formatPieces rest values)
  | .incomplete :: _, _ => .error .incomplete
  | .directive _ verb :: _, [] => .error (.missingValue verb)
  | .directive l verb :: rest, v :: values => do
    let shown ← Directive.apply l verb v
    return shown ++ (← formatPieces rest values)

def sprintf (format : String) (values : List Value) : Except FormatFault String := do
  return String.ofList (← formatPieces (FormatPiece.ofFormat format.toList) values)

end Stencil
