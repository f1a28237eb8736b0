import Stencil.Text.Blank
import Stencil.Text.CaseTable
import Stencil.Text.CasedTable

/-! # Upper and lower case

Full case conversion of texts. The one mapping that looks at its neighbours is that of the
capital sigma, which has a form of its own at the end of a word.
-/
namespace Stencil.Text

def inRanges (ranges : List (Nat × Nat)) (code : Nat) : Bool :=
  ranges.any fun (first, last) => first ≤ code && code ≤ last

def isCased (c : Char) : Bool := inRanges casedRanges c.toNat

def isCaseIgnorable (c : Char) : Bool := inRanges caseIgnorableRanges c.toNat

private def shifted (runs : List (Nat × Nat × Nat × Int)) (code : Nat) : Option Nat :=
  (runs.find? fun (first, last, step, _) =>
    first ≤ code && code ≤ last && (code - first) % step == 0).map fun (_, _, _, shift) =>
      (code + shift).toNat

private def mapped (runs : List (Nat × Nat × Nat × Int)) (long : List (Nat × List Nat))
    (c : Char) : List Char :=
  match long.lookup c.toNat with
  | some codes => codes.map Char.ofNat
  | none => match shifted runs c.toNat with
    | some code => [Char.ofNat code]
    | none => [c]

def upperChar (c : Char) : List Char := mapped upperRuns upperLong c

/-- The lower case form of a character, whatever stands around it. -/
def lowerChar (c : Char) : List Char := mapped lowerRuns lowerLong c

private def meetsCased (text : List Char) : Bool :=
  match text.dropWhile isCaseIgnorable with
  | c :: _ => isCased c
  | [] => false

private def lowerAfter (before : List Char) : List Char → List Char
  | [] => []
  | c :: rest =>
    let form := if c = 'Σ' then
        (if meetsCased before && !meetsCased rest then ['ς'] else ['σ'])
      else lowerChar c
    form ++ lowerAfter (c :: before) rest

def upper (text : List Char) : List Char := text.flatMap upperChar

/-- Lower case, a capital sigma becoming a final one where a word ends with it. -/
def lower (text : List Char) : List Char := lowerAfter [] text

def isPunctuation (c : Char) : Bool :=
  let n := c.toNat
  (33 ≤ n && n ≤ 47) || (58 ≤ n && n ≤ 64) || (91 ≤ n && n ≤ 96) || (123 ≤ n && n ≤ 126)

private def titleFrom (atStart : Bool) : List Char → List Char
  | [] => []
  | c :: rest =>
    if isPunctuation c || isBlank c then c :: titleFrom true rest
    else (if atStart then upperChar c else [c]) ++ titleFrom false rest

/-- Upper case for the first character of every word; words end at punctuation and white space,
and their other characters stay as they are. -/
def title (text : List Char) : List Char := titleFrom true text

end Stencil.Text
