import Stencil.Value.Compare

/-! # Expressions

What stands inside a tag: a name whose value passes through filters, or a condition. A condition
is a chain of terms joined by `and` and `or`, which bind alike and apply from left to right.
-/
namespace Stencil

/-- A constant. Expressions spell texts and numbers; the truth values have no spelling. -/
inductive Literal where
  | text (s : String)
  | int (n : Int64)
  | float (x : Binary64)
  | bool (b : Bool)
deriving DecidableEq

def Literal.value : Literal → Value
  | text s => .text s
  | int n => .int n
  | float x => .float x
  | bool b => .bool b

inductive Argument where
  | constant (l : Literal)
  | lookup (name : String)
deriving DecidableEq

structure FilterCall where
  name : String
  arguments : List Argument
deriving DecidableEq

/-- A name and the filters that its value passes through. -/
structure Pipeline where
  name : String
  filters : List FilterCall
deriving DecidableEq

inductive Operand where
  | pipeline (p : Pipeline)
  | constant (l : Literal)
deriving DecidableEq

inductive Connective where
  | and
  | or
deriving DecidableEq, Repr

/-- A part of a condition that is true or false by itself. -/
inductive Term where
  | operand (negated : Bool) (x : Operand)
  | comparison (op : Comparator) (left right : Operand)
  /-- A condition in parentheses. -/
  | group (negated : Bool) (first : Term) (rest : List (Connective × Term))

/-- Terms joined from left to right. -/
structure Condition where
  first : Term
  rest : List (Connective × Term)

instance : Inhabited Term := ⟨.operand false (.constant (.bool false))⟩
instance : Inhabited Condition := ⟨⟨default, []⟩⟩

end Stencil
