import Stencil.Decimal.Reader

/-! # Format strings

A format is a text with directives. A directive is `%`, flags, a width, a precision and a verb;
`%%` stands for a percent sign. -/
namespace Stencil

structure Layout where
  leftAlign : Bool
  zeroPad : Bool
  plusSign : Bool
  spaceSign : Bool
  width : Option Nat
  precision : Option Nat
deriving DecidableEq, Repr

namespace Layout

def default : Layout := ⟨false, false, false, false, none, none⟩

def flag? (l : Layout) (c : Char) : Option Layout :=
  if c = '-' then some ⟨true, l.zeroPad, l.plusSign, l.spaceSign, l.width, l.precision⟩
  else if c = '0' then some ⟨l.leftAlign, true, l.plusSign, l.spaceSign, l.width, l.precision⟩
  else if c = '+' then some ⟨l.leftAlign, l.zeroPad, true, l.spaceSign, l.width, l.precision⟩
  else if c = ' ' then some ⟨l.leftAlign, l.zeroPad, l.plusSign, true, l.width, l.precision⟩
  else none

/-- Adds a digit to the width, which has no bound, and neither has the precision. From
`2 ^ 64 - 1` on they ask for more characters than any memory holds, or cut a text only if it has
as many, so a count that stops there leaves the same outputs. -/
def widthDigit (l : Layout) (c : Char) : Layout :=
  ⟨l.leftAlign, l.zeroPad, l.plusSign, l.spaceSign,
    some (10 * l.width.getD 0 + digitValue c), l.precision⟩

/-- Begins the precision, which is zero without digits. -/
def point (l : Layout) : Layout :=
  ⟨l.leftAlign, l.zeroPad, l.plusSign, l.spaceSign, l.width, some 0⟩

def precisionDigit (l : Layout) (c : Char) : Layout :=
  ⟨l.leftAlign, l.zeroPad, l.plusSign, l.spaceSign, l.width,
    some (10 * l.precision.getD 0 + digitValue c)⟩

end Layout

inductive FormatPiece where
  | literal (c : Char)
  | directive (layout : Layout) (verb : Char)
  /-- A directive that the end of the format cuts off. -/
  | incomplete
deriving DecidableEq, Repr

namespace FormatPiece

inductive Mode where
  | text
  | flags (layout : Layout)
  | width (layout : Layout)
  | precision (layout : Layout)

def read : Mode → List Char → List FormatPiece
  | .text, [] => []
  | .text, '%' :: '%' :: rest => .literal '%' :: read .text rest
  | .text, '%' :: rest => read (.flags .default) rest
  | .text, c :: rest => .literal c :: read .text rest
  | .flags _, [] | .width _, [] | .precision _, [] => [.incomplete]
  | .flags l, c :: rest => match l.flag? c with
    | some l => read (.flags l) rest
    | none =>
      if isDigit c then read (.width (l.widthDigit c)) rest
      else if c = '.' then read (.precision l.point) rest
      else .directive l c :: read .text rest
  | .width l, c :: rest =>
    if isDigit c then read (.width (l.widthDigit c)) rest
    else if c = '.' then read (.precision l.point) rest
    else .directive l c :: read .text rest
  | .precision l, c :: rest =>
    if isDigit c then read (.precision (l.precisionDigit c)) rest
    else .directive l c :: read .text rest

def ofFormat (format : List Char) : List FormatPiece := read .text format

end FormatPiece

end Stencil
