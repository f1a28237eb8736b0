import Stencil.Expr.Parser
import Stencil.Template.Item
import Stencil.Template.Node

/-! # Tags

What a tag is, by its first character. -/
namespace Stencil

inductive Tag where
  | comment
  | opening (name : String)
  | test (c : Condition)
  /-- Begins the other body. -/
  | otherwise
  | closing (name : String)
  | variable (p : Pipeline) (raw : Bool)

namespace Tag

/-- The name by which conditionals are closed. -/
def testName : String := "if"

def variableOf (raw : Bool) (text : List Char) : Except TagFault Tag :=
  match Pipeline.ofText (Text.trim text) with
  | .ok p => .ok (.variable p raw)
  | .error fault => .error (.expression fault)

def testOf (text : List Char) : Except TagFault Tag :=
  match Condition.ofText (Text.trim text) with
  | .ok c => .ok (.test c)
  | .error fault => .error (.expression fault)

def questionOf (rest : List Char) : Except TagFault Tag :=
  let bad : Except TagFault Tag := .error (.badConditional (String.ofList ('?' :: rest)))
  match rest with
  | ['e', 'l', 's', 'e'] => .ok .otherwise
  | ['i', 'f'] => testOf []
  | 'i' :: 'f' :: c :: rest => if Text.isBlank c then testOf rest else bad
  | _ => bad

/-- The tag between two braces, given without the white space at its ends. -/
def ofTrimmed : List Char → Except TagFault Tag
  | [] => .error .empty
  | '!' :: _ => .ok .comment
  | '#' :: rest =>
    let name := Text.trim rest
    if name = [] then .error .unnamedSection else .ok (.opening (String.ofList name))
  | '?' :: rest => questionOf rest
  | '/' :: rest => .ok (.closing (String.ofList (Text.trim rest)))
  | '\x7b' :: rest =>
    if rest.getLast? = some '\x7d' then variableOf true rest.dropLast
    else variableOf false ('\x7b' :: rest)
  | text => variableOf false text

/-- The tag with the given inside; `raw` if it stands between three braces. -/
def ofInner (raw : Bool) (inner : List Char) : Except TagFault Tag :=
  if raw then variableOf true inner else ofTrimmed (Text.trim inner)

end Tag

end Stencil
