import Stencil.Value.Basic

/-! # Serialized data

Data of any type, described by its shape alone, on its way into a value or out of one. Parts
may fail, and finished values may stand among the parts.
-/
namespace Stencil

inductive Datum where
  /-- Nothing: the empty tuple, a missing optional part, a structure without fields. -/
  | unit
  | bool (b : Bool)
  /-- An integer of any width. -/
  | int (n : Int)
  | float (x : Binary64)
  | text (s : String)
  | bytes (content : List UInt8)
  /-- A part inside something that adds nothing to it. -/
  | wrapped (content : Datum)
  | seq (items : List Datum)
  /-- Parts by key, the keys being of any shape. -/
  | map (entries : List (Datum × Datum))
  | fields (entries : List (String × Datum))
  /-- One of several cases that has no content, of any type but the one that stands for finished
  values. -/
  | case (name : String)
  | caseOf (name : String) (content : Datum)
  | caseSeq (name : String) (items : List Datum)
  | caseFields (name : String) (entries : List (String × Datum))
  /-- A part that refuses to describe itself. -/
  | failing (message : String)
  /-- A part that describes something and then refuses to go on. -/
  | failingAfter (described : Datum) (message : String)
  | value (v : Value)
deriving Inhabited

namespace Value

mutual

/-- The data that describes a value to the outside: an object by its text, a callable by nothing. -/
def emit : Value → Datum
  | absent | callable .. => .unit
  | bool b => .bool b
  | int n => .int n.toInt
  | float x => .float x
  | text s => .text s
  | seq items => .seq (emitItems items)
  | record entries => .map (emitEntries entries)
  | object _ display _ _ _ => .text display

def emitItems : List Value → List Datum
  | [] => []
  | v :: rest => v.emit :: emitItems rest

def emitEntries : List (String × Value) → List (Datum × Datum)
  | [] => []
  | (k, v) :: rest => (.text k, v.emit) :: emitEntries rest

end

mutual

/-- The value without objects and callables: the text of an object and absence take their place. -/
def plain : Value → Value
  | callable .. => absent
  | seq items => seq (plainItems items)
  | record entries => record (plainEntries entries)
  | object _ display _ _ _ => text display
  | v => v

def plainItems : List Value → List Value
  | [] => []
  | v :: rest => v.plain :: plainItems rest

def plainEntries : List (String × Value) → List (String × Value)
  | [] => []
  | (k, v) :: rest => (k, v.plain) :: plainEntries rest

end

end Value

end Stencil
