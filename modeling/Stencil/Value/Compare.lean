import Stencil.Value.Basic

/-! # Comparison of values

Texts are ordered by their characters and numbers by what they denote, an integer next to a
float being rounded to a float first. Nothing else has an order. Equality is structural, a
record being a set of entries, and objects and callables equal only to themselves.
-/
namespace Stencil

inductive Comparator where
  | lt
  | le
  | gt
  | ge
  | eq
  | ne
deriving DecidableEq, Repr, Inhabited

namespace Comparator

def spelling : Comparator → String
  | lt => "<"
  | le => "<="
  | gt => ">"
  | ge => ">="
  | eq => "=="
  | ne => "!="

end Comparator

namespace Value

def order : Value → Value → Option Ordering
  | int a, int b => some (compare a.toInt b.toInt)
  | text a, text b => some (compareOfLessAndEq a b)
  | float x, float y => x.order y
  | float x, int b => x.order (.ofInt b.toInt)
  | int a, float y => (Binary64.ofInt a.toInt).order y
  | _, _ => none

mutual

def equal : Value → Value → Bool
  | absent, absent => true
  | bool a, bool b => a == b
  | seq a, seq b => equalItems a b
  | record a, record b => a.length == b.length && entriesWithin a b
  | object a _ _ _ _, object b _ _ _ _ => a == b
  | callable a _, callable b _ => a == b
  | a, b => order a b == some .eq

def equalItems : List Value → List Value → Bool
  | [], [] => true
  | a :: as, b :: bs => a.equal b && equalItems as bs
  | _, _ => false

/-- Whether every entry of the first record stands in the second one too. -/
def entriesWithin : List (String × Value) → List (String × Value) → Bool
  | [], _ => true
  | (k, a) :: rest, entries =>
    (match entries.lookup k with
      | some b => a.equal b
      | none => false) && entriesWithin rest entries

end

/-- Applies an operator. Values without an order stand in no relation of order. -/
def compares (op : Comparator) (a b : Value) : Bool :=
  match op with
  | .eq => a.equal b
  | .ne => !a.equal b
  | .lt => order a b == some .lt
  | .le => order a b == some .lt || order a b == some .eq
  | .gt => order a b == some .gt
  | .ge => order a b == some .gt || order a b == some .eq

end Value

end Stencil
