import Stencil.Decimal.Layout
import Stencil.Value.Basic

/-! # Texts of values

The text that a value leaves in an output, and the text that shows its structure. -/
namespace Stencil.Value

mutual

/-- What a value leaves in an output. Absence leaves nothing; texts inside sequences and records
are not quoted. -/
def display : Value → String
  | absent => ""
  | bool b => if b then "true" else "false"
  | int n => toString n.toInt
  | float x => x.text
  | text s => s
  | seq items => "[" ++ displayItems items ++ "]"
  | record entries => "\x7b" ++ displayEntries entries ++ "\x7d"
  | object _ display _ _ _ => display
  | callable .. => "<callable>"

def displayItems : List Value → String
  | [] => ""
  | [v] => v.display
  | v :: rest => v.display ++ ", " ++ displayItems rest

def displayEntries : List (String × Value) → String
  | [] => ""
  | [(k, v)] => k ++ ": " ++ v.display
  | (k, v) :: rest => k ++ ": " ++ v.display ++ ", " ++ displayEntries rest

end

mutual

/-- What a value looks like to a person who looks for a mistake: texts are quoted, floats differ
from integers, absence has a word. -/
def debugText : Value → String
  | absent => "none"
  | bool b => if b then "true" else "false"
  | int n => toString n.toInt
  | float x => x.debugText
  | text s => Text.quote s
  | seq items => "[" ++ debugItems items ++ "]"
  | record entries => "\x7b" ++ debugEntries entries ++ "\x7d"
  | object _ _ debug _ _ => debug
  | callable .. => "<callable>"

def debugItems : List Value → String
  | [] => ""
  | [v] => v.debugText
  | v :: rest => v.debugText ++ ", " ++ debugItems rest

def debugEntries : List (String × Value) → String
  | [] => ""
  | [(k, v)] => Text.quote k ++ ": " ++ v.debugText
  | (k, v) :: rest => Text.quote k ++ ": " ++ v.debugText ++ ", " ++ debugEntries rest

end

end Stencil.Value
