import Stencil.Decimal.Binary64
import Stencil.Error

/-! # Values

What templates work on: absence, booleans, numbers, texts, sequences, and records of three
sorts. A record is a list of entries, an object that answers by name, or a callable whose
result stands in its place wherever a record holds it. Objects and callables carry an
identity, by which alone they are compared.
-/
namespace Stencil

inductive Value where
  | absent
  | bool (b : Bool)
  | int (n : Int64)
  | float (x : Binary64)
  | text (s : String)
  | seq (items : List Value)
  /-- Named values in order, the names being distinct. -/
  | record (entries : List (String × Value))
  /-- Answers fields and methods by name, the same at all times; `display` and `debug` are its
  texts. No chain of answers goes on for ever: an object that answers with itself is represented,
  under one identity, as deep as a run asks, and a run asks finitely often. -/
  | object (identity : Nat) (display debug : String) (field : String → Option Value)
      (method : String → Except Error Value)
  /-- Invoked without arguments when a record that holds it is asked for it, with the same result
  each time. -/
  | callable (identity : Nat) (result : Value)
deriving Inhabited

namespace Value

inductive Kind where
  | none
  | bool
  | number
  | string
  | sequence
  | record
  | callable
deriving DecidableEq, Repr

def Kind.name : Kind → String
  | none => "none"
  | bool => "bool"
  | number => "number"
  | string => "string"
  | sequence => "sequence"
  | record => "record"
  | callable => "callable"

def kind : Value → Kind
  | absent => .none
  | bool _ => .bool
  | int _ | float _ => .number
  | text _ => .string
  | seq _ => .sequence
  | record _ | object .. => .record
  | callable .. => .callable

/-- A natural number, as an integer if it is in range and as a float otherwise. -/
def ofNat (n : Nat) : Value := if n < 2 ^ 63 then int (Int64.ofNat n) else float (.ofInt n)

def ofInt (n : Int) : Value :=
  if -(2 ^ 63) ≤ n ∧ n < 2 ^ 63 then int (Int64.ofInt n) else float (.ofInt n)

def ofChar (c : Char) : Value := text (String.singleton c)

def isAbsent : Value → Bool
  | absent => true
  | _ => false

def asText? : Value → Option String
  | text s => some s
  | _ => none

def asInt? : Value → Option Int64
  | int n => some n
  | _ => none

def asSeq? : Value → Option (List Value)
  | seq items => some items
  | _ => none

def items : Value → List Value
  | seq items => items
  | _ => []

/-- How many characters, items or entries there are; other values have no length. -/
def length? : Value → Option Nat
  | text s => some s.length
  | seq items => some items.length
  | record entries => some entries.length
  | _ => none

def isEmpty (v : Value) : Bool := v.length?.getD 0 == 0

/-- Whether a section shows nothing: absence, false, and the empty text and sequence. -/
def isFalsy : Value → Bool
  | absent => true
  | bool b => !b
  | text s => s.isEmpty
  | seq items => items.isEmpty
  | _ => false

/-- Whether a condition holds: all but absence, false and the empty text. -/
def isTrue : Value → Bool
  | absent => false
  | bool b => b
  | text s => !s.isEmpty
  | _ => true

def invoke : Value → Value
  | callable _ result => result
  | v => v

/-- The field of a record, a callable being invoked. -/
def field? (v : Value) (name : String) : Option Value :=
  match v with
  | record entries => (entries.lookup name).map invoke
  | object _ _ _ field _ => (field name).map invoke
  | _ => none

def method (v : Value) (name : String) : Except Error Value :=
  match v with
  | object _ _ _ _ method => method name
  | _ => .error (.new .unknownMethod (v.kind.name ++ " has no method named " ++ name))

def item? (v : Value) (index : Nat) : Option Value :=
  match v with
  | seq items => items[index]?
  | text s => (s.toList[index]?).map ofChar
  | _ => none

end Value

end Stencil
