import Stencil.Data.Datum
import Stencil.Decimal.Layout

/-! # JSON documents

The tree of a document and its compact text. Numbers are integers or floats; a float that is not
finite has no spelling and is written as `null`. -/
namespace Stencil

inductive Json where
  | null
  | bool (b : Bool)
  | int (n : Int)
  | float (x : Binary64)
  | text (s : String)
  | array (items : List Json)
  /-- Members in the order in which they are written. -/
  | object (members : List (String × Json))
deriving Inhabited

namespace Json

def quoteChar (c : Char) : List Char :=
  if c = '"' then ['\\', '"']
  else if c = '\\' then ['\\', '\\']
  else if c = '\x08' then ['\\', 'b']
  else if c = '\x0c' then ['\\', 'f']
  else if c = '\n' then ['\\', 'n']
  else if c = '\r' then ['\\', 'r']
  else if c = '\t' then ['\\', 't']
  else if c.toNat < 32 then
    ['\\', 'u', '0', '0', Nat.digitChar (c.toNat / 16), Nat.digitChar (c.toNat % 16)]
  else [c]

def quote (s : String) : String := String.ofList ('"' :: s.toList.flatMap quoteChar ++ ['"'])

mutual

def print : Json → String
  | null => "null"
  | bool b => if b then "true" else "false"
  | int n => toString n
  | float x => if x.isFinite then x.write .json "" "" "" else "null"
  | text s => quote s
  | array items => "[" ++ printItems items ++ "]"
  | object members => "\x7b" ++ printMembers members ++ "\x7d"

def printItems : List Json → String
  | [] => ""
  | [j] => j.print
  | j :: rest => j.print ++ "," ++ printItems rest

def printMembers : List (String × Json) → String
  | [] => ""
  | [(k, j)] => quote k ++ ":" ++ j.print
  | (k, j) :: rest => quote k ++ ":" ++ j.print ++ "," ++ printMembers rest

end

def member? (j : Json) (name : String) : Option Json :=
  match j with
  | object members => members.lookup name
  | _ => none

mutual

def toDatum : Json → Datum
  | null => .unit
  | bool b => .bool b
  | int n => .int n
  | float x => .float x
  | text s => .text s
  | array items => .seq (itemsToData items)
  | object members => .map (membersToData members)

def itemsToData : List Json → List Datum
  | [] => []
  | j :: rest => j.toDatum :: itemsToData rest

def membersToData : List (String × Json) → List (Datum × Datum)
  | [] => []
  | (k, j) :: rest => (.text k, j.toDatum) :: membersToData rest

end

end Json

namespace Datum

mutual

/-- The document that holds the data. There is none if a part fails, a key is not a text, or a
finished value stands among the parts. -/
def toJson? : Datum → Option Json
  | unit => some .null
  | bool b => some (.bool b)
  | int n => some (.int n)
  | float x => some (.float x)
  | text s | case s => some (.text s)
  | bytes content => some (.array (content.map fun b => .int b.toNat))
  | wrapped content => toJson? content
  | seq items => (itemsToJson? items).map .array
  | map entries => (entriesToJson? entries).map .object
  | fields entries => (fieldsToJson? entries).map .object
  | caseOf name content => (toJson? content).map fun j => .object [(name, j)]
  | caseSeq name items => (itemsToJson? items).map fun js => .object [(name, .array js)]
  | caseFields name entries => (fieldsToJson? entries).map fun ms => .object [(name, .object ms)]
  | failing _ | failingAfter .. | value _ => none

def itemsToJson? : List Datum → Option (List Json)
  | [] => some []
  | d :: rest => do
    let j ← toJson? d
    return j :: (← itemsToJson? rest)

def entriesToJson? : List (Datum × Datum) → Option (List (String × Json))
  | [] => some []
  | (text k, d) :: rest => do
    let j ← toJson? d
    return (k, j) :: (← entriesToJson? rest)
  | _ :: _ => none

def fieldsToJson? : List (String × Datum) → Option (List (String × Json))
  | [] => some []
  | (k, d) :: rest => do
    let j ← toJson? d
    return (k, j) :: (← fieldsToJson? rest)

end

end Datum

end Stencil
