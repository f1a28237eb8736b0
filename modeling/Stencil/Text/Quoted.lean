import Stencil.Text.Case
import Stencil.Text.PrintableTable

/-! # Quoted text

A text between double quotes in which every character can be told from its neighbours:
controls, invisible characters and combining marks are spelled out by their code.
-/
namespace Stencil.Text

/-- Whether a character is shown as it is: it is assigned, visible and stands by itself. -/
def isPlain (c : Char) : Bool :=
  if c.toNat < 127 then 32 ≤ c.toNat
  else !inRanges extendingRanges c.toNat && !inRanges unprintableRanges c.toNat

private def spelled (c : Char) : List Char :=
  ['\\', 'u', '\x7b'] ++ Nat.toDigits 16 c.toNat ++ ['\x7d']

def quoteChar (c : Char) : List Char :=
  if c = '\x00' then ['\\', '0']
  else if c = '\t' then ['\\', 't']
  else if c = '\r' then ['\\', 'r']
  else if c = '\n' then ['\\', 'n']
  else if c = '"' then ['\\', '"']
  else if c = '\\' then ['\\', '\\']
  else if isPlain c then [c]
  else spelled c

def quote (s : String) : String := String.ofList ('"' :: s.toList.flatMap quoteChar ++ ['"'])

end Stencil.Text
