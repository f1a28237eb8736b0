import Stencil.Data.Json
import Stencil.Decimal.Reader
import Stencil.NameTable

/-! # Reading JSON documents

The members of an object come out sorted by name, the last one of a name counting. Integers up
to the unsigned 64-bit ones are exact. A float is read from at most 64 bits of its digits, which
are then scaled by rounded powers of ten, so the last bit may be off.
-/
namespace Stencil.Json

/-- Takes something from the front of a text. -/
abbrev Reader (α : Type) := List Char → Option (α × List Char)

private def isSpace (c : Char) : Bool := c = ' ' || c = '\n' || c = '\t' || c = '\r'

def skipSpace (text : List Char) : List Char := text.dropWhile isSpace

private def hexValue? (c : Char) : Option Nat :=
  if isDigit c then some (digitValue c)
  else if 'a' ≤ c ∧ c ≤ 'f' then some (c.toNat - 'a'.toNat + 10)
  else if 'A' ≤ c ∧ c ≤ 'F' then some (c.toNat - 'A'.toNat + 10)
  else none

private def hex? (a b c d : Char) : Option Nat := do
  return (((← hexValue? a) * 16 + (← hexValue? b)) * 16 + (← hexValue? c)) * 16 + (← hexValue? d)

private def simpleEscape? (c : Char) : Option Char :=
  match c with
  | '"' => some '"'
  | '\\' => some '\\'
  | '/' => some '/'
  | 'b' => some '\x08'
  | 'f' => some '\x0c'
  | 'n' => some '\n'
  | 'r' => some '\r'
  | 't' => some '\t'
  | _ => none

/-- The rest of a text literal, after its opening quote. Controls must be escaped; an escaped
surrogate must be followed by its partner. -/
def readText : Reader (List Char)
  | [] => none
  | '"' :: rest => some ([], rest)
  | '\\' :: 'u' :: a :: b :: c :: d :: rest => do
    let n ← hex? a b c d
    if 0xD800 ≤ n ∧ n < 0xDC00 then
      match rest with
      | '\\' :: 'u' :: a :: b :: c :: d :: rest =>
        let low ← hex? a b c d
        if 0xDC00 ≤ low ∧ low < 0xE000 then
          let (s, rest) ← readText rest
          some (Char.ofNat (0x10000 + (n - 0xD800) * 0x400 + (low - 0xDC00)) :: s, rest)
        else none
      | _ => none
    else if 0xDC00 ≤ n ∧ n < 0xE000 then none
    else
      let (s, rest) ← readText rest
      some (Char.ofNat n :: s, rest)
  | '\\' :: c :: rest => do
    let c ← simpleEscape? c
    let (s, rest) ← readText rest
    some (c :: s, rest)
  | c :: rest =>
    if c.toNat < 32 ∨ c = '\\' then none
    else do
      let (s, rest) ← readText rest
      some (c :: s, rest)

private def maxSignificand : Nat := 2 ^ 64 - 1

/-- Digits read into a significand as long as it stays within 64 bits: the significand, how many
digits went into it, and the rest. -/
private def significandDigits : Nat → Nat → List Char → Nat × Nat × List Char
  | significand, count, [] => (significand, count, [])
  | significand, count, c :: rest =>
    if isDigit c ∧ significand * 10 + digitValue c ≤ maxSignificand then
      significandDigits (significand * 10 + digitValue c) (count + 1) rest
    else (significand, count, c :: rest)

/-- A significand times a power of ten, both factors rounded first. There is no result beyond
the largest finite number. -/
private def scale? (negative : Bool) (significand : Nat) (exponent : Int) : Option Binary64 :=
  let start := Binary64.ofRatio negative significand 1
  let power (n : Nat) := Binary64.ofRatio false (10 ^ n) 1
  if 0 ≤ exponent then
    if exponent ≤ 308 then
      let x := start.mul (power exponent.toNat)
      if x.isFinite then some x else none
    else if significand = 0 then some start
    else none
  else if -308 ≤ exponent then some (start.div (power (-exponent).toNat))
  else if -616 ≤ exponent then some ((start.div (power 308)).div (power (-exponent - 308).toNat))
  else some (.finite negative .zero)

private def readExponent (negative : Bool) (significand : Nat) (exponent : Int) :
    Reader Binary64 := fun input =>
  let (down, body) := splitSign input
  let digits := body.takeWhile isDigit
  let rest := body.dropWhile isDigit
  if digits = [] then none
  else
    let n := digitsValue 0 digits
    if n < 2 ^ 31 then
      (scale? negative significand (if down then exponent - n else exponent + n)).map (·, rest)
    else if significand ≠ 0 ∧ !down then none
    else some (.finite negative .zero, rest)

private def finishFloat (negative : Bool) (significand : Nat) (exponent : Int) : Reader Binary64
  | c :: rest =>
    if c = 'e' ∨ c = 'E' then readExponent negative significand exponent rest
    else (scale? negative significand exponent).map (·, c :: rest)
  | [] => (scale? negative significand exponent).map (·, [])

/-- The digits after the point, of which there must be one. Those beyond 64 bits are ignored. -/
private def readFraction (negative : Bool) (significand : Nat) (exponent : Int) :
    Reader Binary64 := fun input =>
  if (input.head?.map isDigit).getD false then
    let (significand, count, rest) := significandDigits significand 0 input
    finishFloat negative significand (exponent - count) (rest.dropWhile isDigit)
  else none

private def readNumber (negative : Bool) : Reader Json := fun input =>
  let digits := input.takeWhile isDigit
  if digits = [] ∨ (digits.head? = some '0' ∧ digits.length ≠ 1) then none
  else
    let (significand, _, rest) := significandDigits 0 0 input
    let dropped := (rest.takeWhile isDigit).length
    let rest := rest.dropWhile isDigit
    match rest with
    | '.' :: fraction => asFloat (readFraction negative significand dropped fraction)
    | c :: _ =>
      if c = 'e' ∨ c = 'E' ∨ dropped ≠ 0 then
        asFloat (finishFloat negative significand dropped rest)
      else some (whole significand, rest)
    | [] =>
      if dropped ≠ 0 then asFloat (finishFloat negative significand dropped rest)
      else some (whole significand, rest)
where
  asFloat (r : Option (Binary64 × List Char)) : Option (Json × List Char) :=
    r.map fun (x, rest) => (.float x, rest)
  /-- Zero with a minus sign, and what lies below the signed 64-bit range, are floats. -/
  whole (n : Nat) : Json :=
    if negative then
      (if n = 0 ∨ 2 ^ 63 < n then .float (.ofRatio true n 1) else .int (-(n : Int)))
    else .int n

/-- Items separated by commas up to the closing bracket; `fuel` bounds their number. -/
private def readItems (item : Reader Json) : Nat → Reader (List Json)
  | 0, _ => none
  | fuel + 1, input => do
    let (j, rest) ← item input
    match skipSpace rest with
    | ',' :: rest =>
      let (js, rest) ← readItems item fuel rest
      some (j :: js, rest)
    | ']' :: rest => some ([j], rest)
    | _ => none

private def readMembers (item : Reader Json) :
    Nat → List (String × Json) → Reader (List (String × Json))
  | 0, _, _ => none
  | fuel + 1, members, input =>
    match skipSpace input with
    | '"' :: input => do
      let (name, rest) ← readText input
      match skipSpace rest with
      | ':' :: rest =>
        let (j, rest) ← item rest
        let members := NameTable.insert (String.ofList name) j members
        match skipSpace rest with
        | ',' :: rest => readMembers item fuel members rest
        | '\x7d' :: rest => some (members, rest)
        | _ => none
      | _ => none
    | _ => none

/-- A document in front of the text, with at most `levels` arrays and objects one inside the
other. -/
def readDocument (levels : Nat) : Reader Json := fun input =>
  match skipSpace input with
  | '"' :: rest => (readText rest).map fun (s, rest) => (.text (String.ofList s), rest)
  | '-' :: rest => readNumber true rest
  | 'n' :: 'u' :: 'l' :: 'l' :: rest => some (.null, rest)
  | 't' :: 'r' :: 'u' :: 'e' :: rest => some (.bool true, rest)
  | 'f' :: 'a' :: 'l' :: 's' :: 'e' :: rest => some (.bool false, rest)
  | '[' :: rest => match levels with
    | 0 => none
    | levels + 1 => match skipSpace rest with
      | ']' :: rest => some (.array [], rest)
      | rest => (readItems (readDocument levels) rest.length rest).map fun (js, rest) =>
        (.array js, rest)
  | '\x7b' :: rest => match levels with
    | 0 => none
    | levels + 1 => match skipSpace rest with
      | '\x7d' :: rest => some (.object [], rest)
      | rest => (readMembers (readDocument levels) rest.length [] rest).map fun (ms, rest) =>
        (.object ms, rest)
  | rest => readNumber false rest

def maxLevels : Nat := 127

/-- The document that the whole text is, nested at most `levels` deep. -/
def readNested? (levels : Nat) (input : String) : Option Json :=
  match readDocument levels input.toList with
  | some (j, rest) => if skipSpace rest = [] then some j else none
  | none => none

def read? (input : String) : Option Json := readNested? maxLevels input

end Stencil.Json
